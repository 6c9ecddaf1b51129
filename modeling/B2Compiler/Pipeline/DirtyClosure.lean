import B2Compiler.Pipeline.DependencyIndex
import B2Compiler.Ir.StoreUses
import B2Compiler.Lib.Saturation

/-!
# The dirty closure

A broken assumption makes some nodes dirty, and with them every node whose semantics
depends on a dirty one.  The expansion walks the def-use lists of the nodes found so far,
round after round, and gives up when the set outgrows its budget.  The size is compared
with the budget after an insertion only: seeds that are closed already are never
measured.
-/

namespace B2Compiler.Ir

/-- Coarse classification of a kind. -/
inductive NodeClass where
  | control | memory | call | typeOp | guard | value | state
  deriving DecidableEq, Repr

/-- Primary effect of a kind. -/
inductive EffectKind where
  | pure | readLocal | readShared | writeLocal | writeShared | volatileRead | volatileWrite
  | monitorEnter | monitorExit | allocation | callOpaque | exceptionThrow
  deriving DecidableEq, Repr

/-- The class column. -/
def NodeKind.cls : NodeKind → NodeClass
  | .start | .endNode | .region | .ifNode | .ifTrue | .ifFalse | .switchNode | .switchCase
  | .switchDefault | .loopBegin | .loopEnd | .loopExit | .returnNode | .unwind | .deopt => .control
  | .loadField | .storeField | .loadStatic | .storeStatic | .loadElem | .storeElem
  | .memBar | .monitorEnter | .monitorExit | .new | .newArray | .newRefArray
  | .newMultiArray | .classInit | .vectorLoad | .vectorStore | .materialize => .memory
  | .callStatic | .callVirtual | .callInterface | .callDynamic | .callExcept
  | .loadException => .call
  | .checkCast | .instanceOf => .typeOp
  | .guardNode | .repTransitionGuard => .guard
  | .frameState => .state
  | _ => .value

/-- The effect column. -/
def NodeKind.effect : NodeKind → EffectKind
  | .unwind | .checkCast => .exceptionThrow
  | .loadField | .loadStatic | .loadElem | .arrayLength | .instanceOf | .vectorLoad => .readShared
  | .storeField | .storeStatic | .storeElem | .vectorStore => .writeShared
  | .memBar => .volatileWrite
  | .monitorEnter => .monitorEnter
  | .monitorExit => .monitorExit
  | .new | .newArray | .newRefArray | .newMultiArray | .materialize => .allocation
  | .classInit | .callStatic | .callVirtual | .callInterface | .callDynamic => .callOpaque
  | _ => .pure

end B2Compiler.Ir

namespace B2Compiler.Pipeline

open Ir
open Lib

/-- Role of an input slot: the trailing frame state, the fixed prefix, then the appended
inputs, also past the last one. -/
def roleOfSlot (g : Store) (user : NodeId) (slot : Nat) : InputRole :=
  let n := g.node user
  let row := info n.kind
  if n.numInputs = 0 then .none
  else if row.hasFrameState = true ∧ slot = n.numInputs - 1 then .frameState
  else match row.roles[slot]? with
    | some role => role
    | none => row.variadicRole.getD .none

/-- Calls, guards and memory operations may observe all they read. -/
def isSideEffectingUser (n : NodeRec) : Bool :=
  match n.kind.cls with
  | .call => true
  | .memory => n.kind.effect != .pure
  | .guard => true
  | .control | .typeOp | .value | .state => false

/-- Does the reader's meaning depend on what it reads at the slot? -/
def semanticsDependOn (g : Store) (user : NodeId) (slot : Nat) : Bool :=
  let n := g.node user
  if n.isDead then false
  else if isSideEffectingUser n then true
  else match roleOfSlot g user slot with
    | .mem | .data | .frameState | .parent => true
    | .ctrl | .none => false

/-! ## The expansion -/

/-- Out of range or a tombstone. -/
def absent (g : Store) (n : NodeId) : Bool := decide (g.nodeCount ≤ n) || (g.node n).isDead

structure DirtyClosureResult where
  dirty : DirtySet
  budgetExceeded : Bool := false
  iterations : Nat := 0
  deriving DecidableEq, Repr

/-- One entry of a use list. -/
def visitUse (g : Store) (maxSize : Nat) (s : Saturation.State NodeId) (u : Use) :
    Saturation.State NodeId :=
  if absent g u.user then s
  else if !semanticsDependOn g u.user u.slot then s
  else Saturation.offer maxSize s u.user

/-- One place of the snapshot. -/
def visitNode (g : Store) (maxSize : Nat) (s : Saturation.State NodeId) (i : Nat) :
    Saturation.State NodeId :=
  match s.items[i]? with
  | none => s
  | some n => if absent g n then s else (g.usesOf n).foldl (visitUse g maxSize) s

/-- One iteration: the places the vector had at its start. -/
def iteration (g : Store) (maxSize : Nat) (s : Saturation.State NodeId) : Saturation.State NodeId :=
  (List.range s.items.length).foldl (visitNode g maxSize)
    { s with changed := false, rounds := s.rounds + 1 }

/-- The seeds sorted, without repetitions and without absent nodes. -/
def liveSeeds (g : Store) (seeds : DirtySet) : List NodeId :=
  (sortUnique seeds.nodes).filter fun n => !absent g n

/-- `none` stands for a loop that has not ended within the fuel. -/
def expandDirtyClosure (g : Store) (seeds : DirtySet) (maxSize fuel : Nat) :
    Option DirtyClosureResult :=
  (Fuel.whileLoop (fun s : Saturation.State NodeId => s.changed && !s.full)
      (fun _ s => some (iteration g maxSize s)) fuel { items := liveSeeds g seeds }).map
    fun s => { dirty := { seeds with nodes := s.items }, budgetExceeded := s.full,
               iterations := s.rounds }

/-- A live node reads `n` at a slot its meaning depends on. -/
def DependsOn (g : Store) (n user : NodeId) : Prop :=
  ∃ slot, ⟨user, slot⟩ ∈ g.usesOf n ∧ user < g.nodeCount ∧ semanticsDependOn g user slot = true

def LiveSeed (g : Store) (seeds : DirtySet) (n : NodeId) : Prop :=
  n ∈ seeds.nodes ∧ n < g.nodeCount ∧ (g.node n).isDead = false

/-- The sets of nodes that contain the live seeds and whatever depends on a member. -/
def dirtySets (g : Store) (seeds : DirtySet) : Set (Set NodeId) :=
  {S | (∀ n, LiveSeed g seeds n → n ∈ S) ∧ ∀ n ∈ S, ∀ user, DependsOn g n user → user ∈ S}

/-- Within the budget the answer is the least such set, ascending; the budget is reported
exceeded exactly when the least set is larger. -/
structure ClosureExact (g : Store) (seeds : DirtySet) (maxSize : Nat) (r : DirtyClosureResult) :
    Prop where
  sorted : r.budgetExceeded = false → r.dirty.nodes.Pairwise (· < ·)
  least : r.budgetExceeded = false → IsLeast (dirtySets g seeds) {n | n ∈ r.dirty.nodes}
  budget : r.budgetExceeded = true ↔ ∃ S, IsLeast (dirtySets g seeds) S ∧ maxSize < S.ncard

/-! ## The walk over the use lists -/

section Walk

variable {g : Store} {seeds : DirtySet} {maxSize : Nat}

/-- The readers of a node that depend on it, in the order of its use list. -/
def dependents (g : Store) (n : NodeId) : List NodeId :=
  if absent g n then []
  else ((g.usesOf n).filter fun u =>
    !absent g u.user && semanticsDependOn g u.user u.slot).map Use.user

variable {n : NodeId}

theorem absent_eq_false : absent g n = false ↔ n < g.nodeCount ∧ (g.node n).isDead = false := by
  simp [absent]

theorem semanticsDependOn_live {user : NodeId} {slot : Nat}
    (h : semanticsDependOn g user slot = true) : (g.node user).isDead = false := by
  by_contra hDead
  simp [semanticsDependOn, hDead] at h

theorem mem_dependents {user : NodeId} :
    user ∈ dependents g n ↔ absent g n = false ∧ DependsOn g n user := by
  rcases hAbsent : absent g n with _ | _
  · simp only [dependents, hAbsent, Bool.false_eq_true, if_false, List.mem_map, List.mem_filter,
      Bool.and_eq_true, Bool.not_eq_true', absent_eq_false, DependsOn]
    constructor
    · rintro ⟨u, ⟨hUse, ⟨hLt, -⟩, hDep⟩, rfl⟩
      exact ⟨trivial, u.slot, hUse, hLt, hDep⟩
    · rintro ⟨-, slot, hUse, hLt, hDep⟩
      exact ⟨⟨user, slot⟩, ⟨hUse, ⟨hLt, semanticsDependOn_live hDep⟩, hDep⟩, rfl⟩
  · simp [dependents, hAbsent]

/-- The walk of the source is the walk of the library over `dependents`. -/
theorem visitNode_eq : visitNode g maxSize = Saturation.visit (dependents g) maxSize := by
  funext s i
  rw [visitNode, Saturation.visit]
  rcases s.items[i]? with _ | n
  · rfl
  dsimp only
  rcases hAbsent : absent g n with _ | _
  · have hUse : visitUse g maxSize = fun s u =>
        if (!absent g u.user && semanticsDependOn g u.user u.slot) = true then
          Saturation.offer maxSize s u.user else s := by
      funext s u
      rw [visitUse]
      rcases absent g u.user with _ | _ <;>
        rcases semanticsDependOn g u.user u.slot with _ | _ <;> rfl
    simp only [dependents, hAbsent, hUse, Bool.false_eq_true, if_false, List.foldl_map,
      List.foldl_filter]
  · simp [dependents, hAbsent]

theorem expandDirtyClosure_eq (g : Store) (seeds : DirtySet) (maxSize fuel : Nat) :
    expandDirtyClosure g seeds maxSize fuel =
      (Saturation.saturate (dependents g) maxSize fuel { items := liveSeeds g seeds }).map
        fun s => { dirty := { seeds with nodes := s.items }, budgetExceeded := s.full,
                   iterations := s.rounds } := by
  have hIteration : iteration g maxSize = Saturation.round (dependents g) maxSize := by
    funext s
    rw [iteration, Saturation.round, visitNode_eq]
  rw [expandDirtyClosure, Saturation.saturate, hIteration]

theorem mem_liveSeeds : n ∈ liveSeeds g seeds ↔ LiveSeed g seeds n := by
  simp only [liveSeeds, List.mem_filter, mem_sortUnique, Bool.not_eq_true', absent_eq_false,
    LiveSeed]

theorem pairwise_liveSeeds (g : Store) (seeds : DirtySet) : (liveSeeds g seeds).Pairwise (· < ·) :=
  (pairwise_sortUnique seeds.nodes).filter _

theorem live_of_mem_closureOf (h : n ∈ Saturation.closureOf (dependents g) (liveSeeds g seeds)) :
    absent g n = false := by
  have hSet : {n | absent g n = false} ∈
      Saturation.closedSets (dependents g) (liveSeeds g seeds) := by
    constructor
    · intro n hn
      exact absent_eq_false.mpr (mem_liveSeeds.mp hn).2
    · intro n _ user hUser
      obtain ⟨slot, -, hLt, hDep⟩ := (mem_dependents.mp hUser).2
      exact absent_eq_false.mpr ⟨hLt, semanticsDependOn_live hDep⟩
  exact Saturation.closureOf_subset hSet h

theorem finite_closureOf (g : Store) (seeds : DirtySet) :
    (Saturation.closureOf (dependents g) (liveSeeds g seeds)).Finite := by
  refine Set.Finite.subset (Set.finite_lt_nat g.nodeCount) fun n hn => ?_
  exact (absent_eq_false.mp (live_of_mem_closureOf hn)).1

theorem isLeast_dirtySets (g : Store) (seeds : DirtySet) :
    IsLeast (dirtySets g seeds) (Saturation.closureOf (dependents g) (liveSeeds g seeds)) := by
  constructor
  · refine ⟨fun n hn => Saturation.seed_mem_closureOf (mem_liveSeeds.mpr hn), ?_⟩
    intro n hn user hUser
    have hLive := live_of_mem_closureOf hn
    exact Saturation.next_mem_closureOf hn (mem_dependents.mpr ⟨hLive, hUser⟩)
  · rintro S ⟨hSeeds, hStep⟩
    refine Saturation.closureOf_subset ⟨fun n hn => hSeeds n (mem_liveSeeds.mp hn), ?_⟩
    intro n hn user hUser
    exact hStep n hn user (mem_dependents.mp hUser).2

theorem expandDirtyClosure_steady : Fuel.Steady (expandDirtyClosure g seeds maxSize) := by
  have hLoop : Fuel.Steady fun fuel =>
      Fuel.whileLoop (fun s : Saturation.State NodeId => s.changed && !s.full)
        (fun _ s => some (iteration g maxSize s)) fuel { items := liveSeeds g seeds } :=
    Fuel.whileLoop_steady (fun s => Fuel.steady_const (some (iteration g maxSize s))) _
  exact Fuel.steady_map hLoop _

end Walk

/-- The run ends, and what it returns is exact if and only if seeds that are closed
already keep to the budget. -/
theorem expandDirtyClosure_exact (g : Store) (seeds : DirtySet) (maxSize : Nat) :
    ∃ r, Fuel.Returns (expandDirtyClosure g seeds maxSize) r ∧ (ClosureExact g seeds maxSize r ↔
        ((∀ n user, LiveSeed g seeds n → DependsOn g n user → LiveSeed g seeds user) →
          {n | LiveSeed g seeds n}.ncard ≤ maxSize)) := by
  obtain ⟨s, ⟨fuel, hRun⟩, hEnd⟩ :=
    Saturation.saturate_returns (pairwise_liveSeeds g seeds) (finite_closureOf g seeds) maxSize
  have hAnswer := expandDirtyClosure_eq g seeds maxSize fuel
  rw [show Saturation.saturate (dependents g) maxSize fuel _ = some s from hRun] at hAnswer
  refine ⟨_, ⟨fuel, hAnswer⟩, ?_⟩
  have hLeast := isLeast_dirtySets g seeds
  have hSeedSet : {n | LiveSeed g seeds n} = {n | n ∈ liveSeeds g seeds} :=
    Set.ext fun n => mem_liveSeeds.symm
  rw [hSeedSet, Saturation.ncard_items (pairwise_liveSeeds g seeds)]
  constructor
  · -- closed seeds are the closure, and nothing is inserted that could be measured
    intro hExact hClosed
    have hAll : ∀ n ∈ s.items, n ∈ liveSeeds g seeds := by
      intro n hn
      refine Saturation.closureOf_subset ⟨fun _ ha => ha, ?_⟩ (hEnd.sound n hn)
      intro a ha b hb
      exact mem_liveSeeds.mpr (hClosed a b (mem_liveSeeds.mp ha) (mem_dependents.mp hb).2)
    have hFull : s.full = false := by
      by_contra hFull
      obtain ⟨-, n, hn, hNot⟩ := hEnd.overflow (by simpa using hFull)
      exact hNot (hAll n hn)
    have hItems : {n | n ∈ liveSeeds g seeds} = {n | n ∈ s.items} :=
      Set.Subset.antisymm hEnd.kept hAll
    by_contra hOver
    have hReport : s.full = true := by
      refine hExact.budget.mpr ⟨_, hLeast, ?_⟩
      rw [← hEnd.items_eq hFull, ← hItems, Saturation.ncard_items (pairwise_liveSeeds g seeds)]
      omega
    rw [hFull] at hReport
    cases hReport
  · intro hBudget
    refine ⟨fun _ => hEnd.sorted, fun hFull => ?_, ⟨fun hFull => ?_, ?_⟩⟩
    · rw [hEnd.items_eq hFull]
      exact hLeast
    · refine ⟨_, hLeast, ?_⟩
      have hFin := finite_closureOf g seeds
      have hCard := Set.ncard_le_ncard (s := {n | n ∈ s.items}) hEnd.sound hFin
      rw [Saturation.ncard_items hEnd.sorted] at hCard
      exact Nat.lt_of_lt_of_le (hEnd.overflow hFull).1 hCard
    · rintro ⟨S, hS, hLarge⟩
      by_contra hFull
      have hFull : s.full = false := by simpa using hFull
      have hLength : maxSize < s.items.length := by
        rw [hEnd.length_eq hFull, ← hS.unique hLeast]
        exact hLarge
      rcases hEnd.within hFull with hSmall | hSeeds
      · omega
      -- the list never grew, so the seeds are closed
      have hItems : {n | n ∈ liveSeeds g seeds} = {n | n ∈ s.items} :=
        Set.Subset.antisymm hEnd.kept hSeeds
      have hCount := hBudget fun n user hn hUser => by
        have hn : n ∈ liveSeeds g seeds := mem_liveSeeds.mpr hn
        have hAbsent := absent_eq_false.mpr (mem_liveSeeds.mp hn).2
        exact mem_liveSeeds.mp (hSeeds user
          (hEnd.closed hFull n (hEnd.kept n hn) user (mem_dependents.mpr ⟨hAbsent, hUser⟩)))
      rw [← Saturation.ncard_items (pairwise_liveSeeds g seeds), hItems,
        Saturation.ncard_items hEnd.sorted] at hCount
      omega

/-- Two constants nobody reads. -/
def twoConstants : Store := ((Store.fresh.constantI 1).1.constantI 2).1

/-- Two dirty nodes fit into a budget of one: nothing depends on them, so nothing is ever
measured. -/
theorem not_expandDirtyClosure_exact :
    ¬ ∃ r, Fuel.Returns (expandDirtyClosure twoConstants { nodes := [1, 2] } 1) r ∧
      ClosureExact twoConstants { nodes := [1, 2] } 1 r := by
  rintro ⟨r, ⟨fuel, hRun⟩, hExact⟩
  have hAnswer : expandDirtyClosure twoConstants { nodes := [1, 2] } 1 2 =
      some { dirty := { nodes := [1, 2] }, budgetExceeded := false, iterations := 1 } := by
    decide +kernel
  have hr := Fuel.Returns.unique expandDirtyClosure_steady ⟨fuel, hRun⟩ ⟨2, hAnswer⟩
  subst hr
  have hLeast := hExact.least rfl
  have hReport := hExact.budget.mpr ⟨_, hLeast, by
    rw [Saturation.ncard_items (hExact.sorted rfl)]
    decide⟩
  cases hReport

end B2Compiler.Pipeline
