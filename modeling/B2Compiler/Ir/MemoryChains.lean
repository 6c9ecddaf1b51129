import Mathlib.Algebra.Order.Ring.Nat
import B2Compiler.Ir.VerifiedGraph
import B2Compiler.Lib.FinishOrder

/-!
# What the verifier accepts of the memory chains

From every live node with a memory input the verifier walks back through the memory
states, and it looks through the phis a memory input names.  The walk keeps the branch it
is on and the nodes it has proven; a node of the branch may come up again only if it is
the phi of a loop header.

`Sound` is what an accepted chain is known to be, whatever the order of the walk.
`Plain` is enough for a chain to be accepted: it speaks of walks that pass no node twice,
of phis among themselves, and of the size the step limit leaves room for.
-/

namespace B2Compiler.Ir.Image

open Relation (ReflTransGen TransGen)
open Lib.FinishOrder List

variable (im : Image)

/-! ## Links -/

/-- An id the walk follows: a valid one other than the start node, and not the phi
itself. -/
def Enters (u v : NodeId) : Prop :=
  ¬ ((im.node u).kind = .phi ∧ v = u) ∧ im.validId v = true ∧ v ≠ Graph.startNode

/-- One link of a memory chain. -/
def Link (u v : NodeId) : Prop := v ∈ im.memChildren u ∧ im.Enters u v

def LoopPhi (v : NodeId) : Prop :=
  (im.node v).kind = .phi ∧ 1 ≤ (im.node v).inputs.length ∧
    im.validId (im.input v 0) = true ∧ (im.node (im.input v 0)).kind = .loopBegin

/-- A link to anything but a loop phi. -/
def ForwardLink (u v : NodeId) : Prop := im.Link u v ∧ ¬ im.LoopPhi v

def PhiLink (u v : NodeId) : Prop :=
  (im.node u).kind = .phi ∧ v ∈ (im.node u).inputs.tail ∧ v ≠ u ∧ im.validId v = true ∧
    (im.node v).kind = .phi

/-- A live node reads the memory state `root`. -/
def Consumes (n root : NodeId) : Prop :=
  n < im.nodeCount ∧ im.isDead n = false ∧
    ∃ s, memSlot (im.node n).kind = some s ∧ (im.node n).inputs[s]? = some root ∧
      im.validId root = true

/-- No link leaves the memory states, and no cycle of links does without a loop phi. -/
structure Sound (root : NodeId) : Prop where
  producers : ∀ v, ReflTransGen im.Link root v → producesMemoryState (im.node v).kind = true
  acyclic : ∀ v, ReflTransGen im.Link root v → ¬ TransGen im.ForwardLink v v

/-- The nodes of a walk from `root`, the last one first, none of them twice. -/
structure Walk (root : NodeId) (nodes : List NodeId) : Prop where
  root : nodes.getLast? = some root
  linked : nodes.IsChain fun v u => im.Link u v
  nodup : nodes.Nodup

/-- The turns the walk takes for a list of nodes. -/
def turns (nodes : List NodeId) : Nat :=
  (nodes.map fun v => (im.memChildren v).length + 1).sum

/-- A chain that no order of walking it can make look wrong. -/
structure Plain (root : NodeId) : Prop where
  producers : ∀ v, ReflTransGen im.Link root v → producesMemoryState (im.node v).kind = true
  closes : ∀ last rest v, im.Walk root (last :: rest) → im.Link last v → v ∈ last :: rest →
    im.LoopPhi v
  phis : ∀ v, ReflTransGen im.PhiLink root v → ¬ TransGen im.PhiLink v v
  size : ∀ nodes : List NodeId, nodes.Nodup → (∀ v ∈ nodes, ReflTransGen im.Link root v) →
    im.turns nodes ≤ 2 * im.nodeCount + 3

/-- A memory input as the role pass takes it. -/
def MemInputOk (v : NodeId) : Prop :=
  producesMemoryState (im.node v).kind = true ∧
    ((im.node v).kind = .phi → im.memoryPhiOffender (im.nodeCount + 2) v = none)

/-- Neither the role pass nor the walk objects to a memory input of a live node. -/
def MemoryAccepted : Prop :=
  ∀ n < im.nodeCount, im.isDead n = false → im.checkMemoryChain n = [] ∧
    ∀ root, im.Consumes n root → im.MemInputOk root

variable {im} {n : NodeId}

theorem memWalk_succ {fuel : Nat} {top next : NodeId} {stack : List WalkFrame}
    {done : List NodeId} :
    im.memWalk n (fuel + 1) ((top, next) :: stack) done = [] ↔
      producesMemoryState (im.node top).kind = true ∧
        (((im.memChildren top)[next]? = none ∧ im.memWalk n fuel stack (top :: done) = []) ∨
          ∃ child, (im.memChildren top)[next]? = some child ∧
            ((¬ im.Enters top child ∨ child ∈ top :: stack.map Prod.fst ∧ im.LoopPhi child ∨
                child ∉ top :: stack.map Prod.fst ∧ child ∈ done) ∧
              im.memWalk n fuel ((top, next + 1) :: stack) done = [] ∨
              im.Enters top child ∧ child ∉ top :: stack.map Prod.fst ∧ child ∉ done ∧
                im.memWalk n fuel ((child, 0) :: (top, next + 1) :: stack) done = [])) := by
  conv => lhs; unfold memWalk
  rcases hProd : producesMemoryState (im.node top).kind with _ | _
  · simp [hProd]
  simp only [hProd, Bool.not_true, Bool.false_eq_true, if_false, true_and]
  rcases hGet : (im.memChildren top)[next]? with _ | child
  · simp
  simp only [reduceCtorEq, false_and, false_or, Option.some.injEq, exists_eq_left', map_cons]
  by_cases hSelf : (im.node top).kind = .phi ∧ child = top
  · simp [Enters, hSelf]
  rw [if_neg hSelf]
  rcases hValid : im.validId child with _ | _
  · simp [Enters, hValid]
  by_cases hStart : child = Graph.startNode
  · simp [Enters, hStart]
  have hEnters : im.Enters top child := ⟨hSelf, hValid, hStart⟩
  simp only [Bool.not_true, Bool.false_eq_true, if_false, hStart, hEnters, not_true,
    false_or, true_and]
  by_cases hPath : child ∈ top :: stack.map Prod.fst
  · simp only [hPath, if_true, not_true, false_and, or_false, true_and]
    by_cases hLoop : im.LoopPhi child
    · have hLoop' := hLoop
      unfold LoopPhi at hLoop'
      simp only [hLoop, hLoop', true_and, and_self, if_true]
    · have hLoop' := hLoop
      unfold LoopPhi at hLoop'
      simp [hLoop, hLoop']
  · by_cases hDone : child ∈ done
    all_goals simp [hPath, hDone]

/-! ## What an accepted walk has proven -/

section Accepted

/-- The links of the frames that are dealt with lead to nodes that are proven, to loop phis
of the branch, or to the frame above. -/
def Handled (im : Image) (nodes done : List NodeId) : Option NodeId → List WalkFrame → Prop
  | _, [] => True
  | above, (w, c) :: rest =>
    (∀ i < c, ∀ v, (im.memChildren w)[i]? = some v → im.Enters w v →
      (v ∈ nodes ∨ v ∈ done) ∧ (v ∈ done ∨ im.LoopPhi v ∨ above = some v)) ∧
    Handled im nodes done (some w) rest

theorem Handled.mono {nodes done nodes' done' : List NodeId} {above above' : Option NodeId}
    {stack : List WalkFrame} (h : Handled im nodes done above stack)
    (hSeen : ∀ v, v ∈ nodes ∨ v ∈ done → v ∈ nodes' ∨ v ∈ done')
    (hDone : ∀ v ∈ done, v ∈ done')
    (hAbove : ∀ v, above = some v → v ∈ done' ∨ above' = some v) :
    Handled im nodes' done' above' stack := by
  induction stack generalizing above above' with
  | nil => trivial
  | cons frame rest ih =>
    obtain ⟨w, c⟩ := frame
    refine ⟨fun i hi v hv hEnters => ?_, ih h.2 fun v hv => Or.inr hv⟩
    obtain ⟨hIn, hWhy⟩ := h.1 i hi v hv hEnters
    refine ⟨hSeen v hIn, ?_⟩
    rcases hWhy with hd | hLoop | hTop
    · exact Or.inl (hDone v hd)
    · exact Or.inr (Or.inl hLoop)
    · rcases hAbove v hTop with hd | hTop
      · exact Or.inl hd
      · exact Or.inr (Or.inr hTop)

/-- What the walk knows: the branch and the proven nodes are distinct, and a proven node
has its forward links proven before it. -/
structure Proving (im : Image) (stack : List WalkFrame) (done : List NodeId) : Prop where
  nodup : (stack.map Prod.fst ++ done).Nodup
  finished : Finished im.ForwardLink done
  closed : ∀ w ∈ done, ∀ v, im.Link w v → v ∈ stack.map Prod.fst ∨ v ∈ done
  producers : ∀ w ∈ done, producesMemoryState (im.node w).kind = true
  handled : Handled im (stack.map Prod.fst) done none stack

/-- A list of nodes proven together. -/
structure Proven (im : Image) (nodes : List NodeId) : Prop where
  nodup : nodes.Nodup
  finished : Finished im.ForwardLink nodes
  closed : ∀ w ∈ nodes, ∀ v, im.Link w v → v ∈ nodes
  producers : ∀ w ∈ nodes, producesMemoryState (im.node w).kind = true

variable {top next child : NodeId} {stack : List WalkFrame} {done : List NodeId}

section

variable (h : Proving im ((top, next) :: stack) done)
include h

/-- The frame on top has no predecessor left: its node is proven. -/
theorem Proving.pop (hProd : producesMemoryState (im.node top).kind = true)
    (hEnd : (im.memChildren top)[next]? = none) : Proving im stack (top :: done) := by
  have hSeen : ∀ v, v ∈ top :: stack.map Prod.fst ∨ v ∈ done →
      v ∈ stack.map Prod.fst ∨ v ∈ top :: done := by
    intro v hv
    simp only [mem_cons] at hv ⊢
    tauto
  have hAll : ∀ v, im.Link top v → (v ∈ top :: stack.map Prod.fst ∨ v ∈ done) ∧
      (v ∈ done ∨ im.LoopPhi v) := by
    rintro v ⟨hv, hEnters⟩
    obtain ⟨i, hi⟩ := mem_iff_getElem?.mp hv
    have hLt : i < next := by
      have hShort := List.getElem?_eq_none_iff.mp hEnd
      have hIn := (List.getElem?_eq_some_iff.mp hi).1
      omega
    obtain ⟨hIn, hWhy⟩ := h.handled.1 i hLt v hi hEnters
    refine ⟨hIn, ?_⟩
    rcases hWhy with hd | hLoop | hNone
    · exact Or.inl hd
    · exact Or.inr hLoop
    · cases hNone
  constructor
  case nodup =>
    exact (perm_middle.nodup_iff).mpr h.nodup
  case finished =>
    refine ⟨fun v hv => ?_, h.finished⟩
    rcases (hAll v hv.1).2 with hd | hLoop
    · exact hd
    · exact absurd hLoop hv.2
  case closed =>
    refine forall_mem_cons.mpr ⟨fun v hv => hSeen v (hAll v hv).1, ?_⟩
    exact fun w hw v hv => hSeen v (h.closed w hw v hv)
  case producers =>
    exact forall_mem_cons.mpr ⟨hProd, h.producers⟩
  case handled =>
    refine h.handled.2.mono hSeen (fun v hv => mem_cons_of_mem _ hv) ?_
    intro v hv
    exact Or.inl (Option.some.inj hv ▸ mem_cons_self)

theorem Proving.skip (hGet : (im.memChildren top)[next]? = some child)
    (hSkip : ¬ im.Enters top child ∨ child ∈ top :: stack.map Prod.fst ∧ im.LoopPhi child ∨
      child ∉ top :: stack.map Prod.fst ∧ child ∈ done) :
    Proving im ((top, next + 1) :: stack) done := by
  refine ⟨h.nodup, h.finished, h.closed, h.producers, ?_, h.handled.2⟩
  intro i hi v hv hEnters
  rcases Nat.lt_succ_iff_lt_or_eq.mp hi with hLt | rfl
  · exact h.handled.1 i hLt v hv hEnters
  rw [hGet] at hv
  cases hv
  rcases hSkip with hNot | ⟨hPath, hLoop⟩ | ⟨-, hDone⟩
  · exact absurd hEnters hNot
  · exact ⟨Or.inl hPath, Or.inr (Or.inl hLoop)⟩
  · exact ⟨Or.inr hDone, Or.inl hDone⟩

/-- A predecessor the walk has not met goes on top. -/
theorem Proving.push (hGet : (im.memChildren top)[next]? = some child)
    (hPath : child ∉ top :: stack.map Prod.fst) (hNew : child ∉ done) :
    Proving im ((child, 0) :: (top, next + 1) :: stack) done := by
  have hSeen : ∀ v, v ∈ top :: stack.map Prod.fst ∨ v ∈ done →
      v ∈ child :: top :: stack.map Prod.fst ∨ v ∈ done := by
    intro v hv
    exact hv.imp_left (mem_cons_of_mem _)
  constructor
  case nodup =>
    refine nodup_cons.mpr ⟨fun hMem => ?_, h.nodup⟩
    rcases mem_append.mp hMem with hOn | hDone
    · exact hPath hOn
    · exact hNew hDone
  case finished =>
    exact h.finished
  case closed =>
    exact fun w hw v hv => hSeen v (h.closed w hw v hv)
  case producers =>
    exact h.producers
  case handled =>
    refine ⟨fun i hi => absurd hi (Nat.not_lt_zero i), ?_, ?_⟩
    · intro i hi v hv hEnters
      rcases Nat.lt_succ_iff_lt_or_eq.mp hi with hLt | rfl
      · obtain ⟨hIn, hWhy⟩ := h.handled.1 i hLt v hv hEnters
        refine ⟨hSeen v hIn, ?_⟩
        rcases hWhy with hd | hLoop | hNone
        · exact Or.inl hd
        · exact Or.inr (Or.inl hLoop)
        · cases hNone
      · rw [hGet] at hv
        cases hv
        exact ⟨Or.inl mem_cons_self, Or.inr (Or.inr rfl)⟩
    · exact h.handled.2.mono hSeen (fun v hv => hv) fun v hv => Or.inr hv

end

/-- A walk that reports nothing ends with everything it met proven. -/
theorem proven_of_memWalk {fuel : Nat} (h : Proving im stack done)
    (hWalk : im.memWalk n fuel stack done = []) :
    ∃ nodes, Proven im nodes ∧ ∀ v ∈ stack.map Prod.fst ++ done, v ∈ nodes := by
  have hEmpty : ∀ {done}, Proving im [] done →
      ∃ nodes, Proven im nodes ∧ ∀ v ∈ done, v ∈ nodes := by
    intro done h
    refine ⟨done, ⟨h.nodup, h.finished, fun w hw v hv => ?_, h.producers⟩, fun v hv => hv⟩
    exact (h.closed w hw v hv).resolve_left not_mem_nil
  induction fuel generalizing stack done with
  | zero =>
    rcases stack with _ | ⟨frame, stack⟩
    · exact hEmpty h
    · unfold memWalk at hWalk
      cases hWalk
  | succ fuel ih =>
    rcases stack with _ | ⟨⟨top, next⟩, stack⟩
    · exact hEmpty h
    obtain ⟨hProd, hStep⟩ := memWalk_succ.mp hWalk
    rcases hStep with ⟨hEnd, hRest⟩ | ⟨child, hGet, ⟨hSkip, hRest⟩ | ⟨-, hPath, hNew, hRest⟩⟩
    · obtain ⟨nodes, hNodes, hMem⟩ := ih (h.pop hProd hEnd) hRest
      refine ⟨nodes, hNodes, fun v hv => hMem v ?_⟩
      exact perm_middle.mem_iff.mpr hv
    · obtain ⟨nodes, hNodes, hMem⟩ := ih (h.skip hGet hSkip) hRest
      exact ⟨nodes, hNodes, hMem⟩
    · obtain ⟨nodes, hNodes, hMem⟩ := ih (h.push hGet hPath hNew) hRest
      exact ⟨nodes, hNodes, fun v hv => hMem v (mem_cons_of_mem _ hv)⟩

theorem sound_of_memWalk {fuel : Nat} {root : NodeId}
    (hWalk : im.memWalk n fuel [(root, 0)] [] = []) : im.Sound root := by
  have hStart : Proving im [(root, 0)] [] := by
    refine ⟨by simp, trivial, by simp, by simp, ?_, trivial⟩
    exact fun i hi => absurd hi (Nat.not_lt_zero i)
  obtain ⟨nodes, hNodes, hMem⟩ := proven_of_memWalk hStart hWalk
  have hReached : ∀ v, ReflTransGen im.Link root v → v ∈ nodes := by
    intro v hv
    induction hv with
    | refl => exact hMem root (by simp)
    | tail _ hStep ih => exact hNodes.closed _ ih _ hStep
  exact ⟨fun v hv => hNodes.producers v (hReached v hv),
    fun v hv => hNodes.finished.acyclic hNodes.nodup (hReached v hv)⟩

end Accepted

/-! ## Chains the walk accepts -/

section Plain

variable {root : NodeId}

/-- The turns the frames of a branch still need. -/
def remaining (im : Image) (stack : List WalkFrame) : Nat :=
  (stack.map fun frame => (im.memChildren frame.1).length - frame.2 + 1).sum

structure Walking (im : Image) (root : NodeId) (fuel : Nat) (stack : List WalkFrame)
    (done : List NodeId) : Prop where
  walk : stack ≠ [] → im.Walk root (stack.map Prod.fst)
  reached : ∀ v ∈ stack.map Prod.fst, ReflTransGen im.Link root v
  within : ∀ frame ∈ stack, frame.2 ≤ (im.memChildren frame.1).length
  room : ∀ nodes : List NodeId, nodes.Nodup → (∀ v ∈ nodes, ReflTransGen im.Link root v) →
    (∀ v ∈ nodes, v ∉ stack.map Prod.fst ∧ v ∉ done) →
    im.turns nodes + remaining im stack ≤ fuel

variable {fuel : Nat} {top next child : NodeId} {stack : List WalkFrame} {done : List NodeId}

theorem remaining_cons (frame : WalkFrame) : remaining im (frame :: stack) =
      (im.memChildren frame.1).length - frame.2 + 1 + remaining im stack := by
  simp [remaining]

theorem Walk.tail {last : NodeId} {rest : List NodeId} (h : im.Walk root (last :: rest))
    (hRest : rest ≠ []) : im.Walk root rest := by
  refine ⟨?_, List.IsChain.of_cons h.linked, (nodup_cons.mp h.nodup).2⟩
  rw [← h.root, getLast?_cons]
  obtain ⟨v, hv⟩ := getLast?_isSome.mpr hRest |> Option.isSome_iff_exists.mp
  rw [hv]
  rfl

section

variable (h : Walking im root (fuel + 1) ((top, next) :: stack) done)
include h

theorem Walking.pop : Walking im root fuel stack (top :: done) := by
  constructor
  case walk =>
    intro hStack
    exact (h.walk (cons_ne_nil _ _)).tail (by simpa using hStack)
  case reached =>
    exact fun v hv => h.reached v (mem_cons_of_mem _ hv)
  case within =>
    exact fun frame hf => h.within frame (mem_cons_of_mem _ hf)
  case room =>
    intro nodes hNodup hReached hNew
    have hRoom := h.room nodes hNodup hReached fun v hv => by
      have hOut := hNew v hv
      simp only [mem_cons, not_or] at hOut
      simp only [map_cons, mem_cons, not_or]
      tauto
    rw [remaining_cons] at hRoom
    omega

theorem Walking.skip (hGet : (im.memChildren top)[next]? = some child) :
    Walking im root fuel ((top, next + 1) :: stack) done := by
  have hLt := (List.getElem?_eq_some_iff.mp hGet).1
  constructor
  case walk =>
    exact fun _ => h.walk (cons_ne_nil _ _)
  case reached =>
    exact h.reached
  case within =>
    exact forall_mem_cons.mpr ⟨hLt, (forall_mem_cons.mp h.within).2⟩
  case room =>
    intro nodes hNodup hReached hNew
    have hRoom := h.room nodes hNodup hReached hNew
    rw [remaining_cons] at hRoom ⊢
    dsimp only at hRoom ⊢
    omega

theorem Walking.push
    (hGet : (im.memChildren top)[next]? = some child) (hEnters : im.Enters top child)
    (hPath : child ∉ top :: stack.map Prod.fst) (hNew : child ∉ done) :
    Walking im root fuel ((child, 0) :: (top, next + 1) :: stack) done := by
  have hLt := (List.getElem?_eq_some_iff.mp hGet).1
  have hLink : im.Link top child := ⟨mem_of_getElem? hGet, hEnters⟩
  have hWalk := h.walk (cons_ne_nil _ _)
  have hChild : ReflTransGen im.Link root child :=
    (h.reached top mem_cons_self).tail hLink
  constructor
  case walk =>
    intro _
    refine ⟨?_, List.IsChain.cons_cons hLink hWalk.linked, ?_⟩
    · rw [← hWalk.root]
      exact getLast?_cons_cons
    · exact nodup_cons.mpr ⟨hPath, hWalk.nodup⟩
  case reached =>
    exact forall_mem_cons.mpr ⟨hChild, h.reached⟩
  case within =>
    refine forall_mem_cons.mpr ⟨Nat.zero_le _, ?_⟩
    exact forall_mem_cons.mpr ⟨hLt, (forall_mem_cons.mp h.within).2⟩
  case room =>
    intro nodes hNodup hReached hOut
    have hRoom := h.room (child :: nodes) ?_ ?_ ?_
    · simp only [turns, map_cons, sum_cons] at hRoom
      rw [remaining_cons] at hRoom
      rw [remaining_cons, remaining_cons]
      dsimp only at hRoom ⊢
      simp only [turns]
      omega
    · refine nodup_cons.mpr ⟨fun hMem => ?_, hNodup⟩
      exact (hOut child hMem).1 mem_cons_self
    · exact forall_mem_cons.mpr ⟨hChild, hReached⟩
    · refine forall_mem_cons.mpr ⟨⟨hPath, hNew⟩, fun v hv => ?_⟩
      exact ⟨fun hMem => (hOut v hv).1 (mem_cons_of_mem _ hMem), (hOut v hv).2⟩

end

/-- The walk along a plain chain reports nothing and stays within its steps. -/
theorem memWalk_of_plain (hPlain : im.Plain root) (h : Walking im root fuel stack done) :
    im.memWalk n fuel stack done = [] := by
  induction fuel generalizing stack done with
  | zero =>
    rcases stack with _ | ⟨frame, stack⟩
    · unfold memWalk
      rfl
    · have hRoom := h.room [] nodup_nil (by simp) (by simp)
      rw [remaining_cons] at hRoom
      omega
  | succ fuel ih =>
    rcases stack with _ | ⟨⟨top, next⟩, stack⟩
    · unfold memWalk
      rfl
    have hTop := h.reached top mem_cons_self
    refine memWalk_succ.mpr ⟨hPlain.producers top hTop, ?_⟩
    rcases hGet : (im.memChildren top)[next]? with _ | child
    · exact Or.inl ⟨rfl, ih h.pop⟩
    refine Or.inr ⟨child, rfl, ?_⟩
    by_cases hEnters : im.Enters top child
    · by_cases hPath : child ∈ top :: stack.map Prod.fst
      · have hLink : im.Link top child := ⟨mem_of_getElem? hGet, hEnters⟩
        have hLoop := hPlain.closes top _ child (h.walk (cons_ne_nil _ _)) hLink hPath
        exact Or.inl ⟨Or.inr (Or.inl ⟨hPath, hLoop⟩), ih (h.skip hGet)⟩
      · by_cases hDone : child ∈ done
        · exact Or.inl ⟨Or.inr (Or.inr ⟨hPath, hDone⟩), ih (h.skip hGet)⟩
        · exact Or.inr ⟨hEnters, hPath, hDone, ih (h.push hGet hEnters hPath hDone)⟩
    · exact Or.inl ⟨Or.inl hEnters, ih (h.skip hGet)⟩

theorem memoryPhiOffender_succ {f : Nat} {phi : NodeId} : im.memoryPhiOffender (f + 1) phi = none ↔
      ∀ v ∈ (im.node phi).inputs.tail, v ≠ phi → im.validId v = true →
        ((im.node v).kind = .phi → im.memoryPhiOffender f v = none) ∧
          ((im.node v).kind ≠ .phi → producesMemoryState (im.node v).kind = true) := by
  conv => lhs; unfold memoryPhiOffender
  rw [findSome?_eq_none_iff]
  refine forall₂_congr fun v _ => ?_
  by_cases hSelf : v = phi
  · simp [hSelf]
  rcases hValid : im.validId v with _ | _
  · simp [hSelf]
  · by_cases hPhi : (im.node v).kind = .phi
    · simp [hSelf, hPhi]
    · rcases hProd : producesMemoryState (im.node v).kind with _ | _
      all_goals simp [hSelf, hPhi]

theorem PhiLink.link {u v : NodeId} (hStart : (im.node Graph.startNode).kind = .start)
    (h : im.PhiLink u v) : im.Link u v := by
  obtain ⟨hu, hv, hNe, hValid, hPhi⟩ := h
  refine ⟨?_, fun hSelf => hNe hSelf.2, hValid, fun hEq => ?_⟩
  · unfold memChildren
    rw [if_pos hu]
    exact hv
  · rw [hEq, hStart] at hPhi
    cases hPhi

/-- The role pass accepts a plain chain: the phis among themselves have no cycle, so its
nesting limit is never met. -/
theorem memInputOk_of_plain (hStart : (im.node Graph.startNode).kind = .start)
    (hPlain : im.Plain root) : im.MemInputOk root := by
  refine ⟨hPlain.producers root ReflTransGen.refl, fun hPhi => ?_⟩
  let P (f : Nat) (v : NodeId) : Prop := ReflTransGen im.PhiLink root v →
    (im.node v).kind = .phi → im.memoryPhiOffender (f + 1) v = none
  have hUniv : ∀ a b, im.PhiLink a b → a ∈ range im.nodeCount := by
    intro a b hab
    refine mem_range.mpr ?_
    by_contra ha
    have hDefault : im.node a = {} := by
      rw [node, getD_eq_getElem?_getD, getElem?_eq_none (Nat.le_of_not_lt ha)]
      rfl
    have hKind := hab.1
    rw [hDefault] at hKind
    cases hKind
  have hStep : ∀ f a, (∀ b, im.PhiLink a b → P f b) → P (f + 1) a := by
    intro f a hNext hReach hKind
    refine memoryPhiOffender_succ.mpr fun v hv hNe hValid => ⟨fun hv' => ?_, fun hv' => ?_⟩
    · have hLink : im.PhiLink a v := ⟨hKind, hv, hNe, hValid, hv'⟩
      exact hNext v hLink (hReach.tail hLink) hv'
    by_cases hZero : v = Graph.startNode
    · rw [hZero, hStart]
      rfl
    have hChain : ReflTransGen im.Link root a :=
      ReflTransGen.mono (fun _ _ h => PhiLink.link hStart h) _ _ hReach
    refine hPlain.producers v (hChain.tail ⟨?_, fun hSelf => hNe hSelf.2, hValid, hZero⟩)
    unfold memChildren
    rw [if_pos hKind]
    exact hv
  have hEnd : P ((range im.nodeCount).length + 1) root :=
    fuel_suffices hUniv hStep hPlain.phis
  rw [length_range] at hEnd
  exact hEnd ReflTransGen.refl hPhi

theorem walking_start (hPlain : im.Plain root) :
    Walking im root (2 * im.nodeCount + 3) [(root, 0)] [] := by
  constructor
  case walk =>
    exact fun _ => ⟨rfl, List.IsChain.singleton _, nodup_singleton _⟩
  case reached =>
    intro v hv
    rw [map_singleton, mem_singleton] at hv
    exact hv ▸ ReflTransGen.refl
  case within =>
    intro frame hf
    rw [mem_singleton.mp hf]
    exact Nat.zero_le _
  case room =>
    intro nodes hNodup hReached hNew
    have hSize := hPlain.size (root :: nodes) ?_ ?_
    · simp only [turns, map_cons, sum_cons] at hSize
      simp only [remaining, turns, map_cons, map_nil, sum_cons, sum_nil]
      omega
    · refine nodup_cons.mpr ⟨fun hMem => ?_, hNodup⟩
      exact (hNew root hMem).1 (by simp)
    · exact forall_mem_cons.mpr ⟨ReflTransGen.refl, hReached⟩

end Plain

/-! ## The check -/

theorem checkMemoryChain_eq {root : NodeId} (h : im.Consumes n root) :
    im.checkMemoryChain n = im.memWalk n (2 * im.nodeCount + 3) [(root, 0)] [] := by
  obtain ⟨-, hLive, s, hSlot, hGet, hValid⟩ := h
  unfold checkMemoryChain
  simp only [hLive, hSlot, hGet, hValid, Bool.false_eq_true, if_false, if_true]

theorem checkMemoryChain_eq_nil (hn : n < im.nodeCount) (h : ∀ root, im.Consumes n root →
      im.memWalk n (2 * im.nodeCount + 3) [(root, 0)] [] = []) :
    im.checkMemoryChain n = [] := by
  unfold checkMemoryChain
  rcases hDead : im.isDead n with _ | _
  · simp only [Bool.false_eq_true, if_false]
    split
    · rfl
    rename_i s hSlot
    split
    · rfl
    · rename_i root hGet
      split
      · rename_i hValid
        exact h root ⟨hn, hDead, s, hSlot, hGet, hValid⟩
      · rfl
  · simp

/-- The role pass of an accepted graph has no objection to a memory input. -/
theorem memInputOk_of_checkRoles {root : NodeId} (h : im.checkRoles n = [])
    (hConsumes : im.Consumes n root) : im.MemInputOk root := by
  obtain ⟨-, -, s, hSlot, hGet, hValid⟩ := hConsumes
  have hRole : im.roleAt n s = .mem := by
    unfold memSlot at hSlot
    obtain ⟨hLt, hMem, -⟩ := findIdx?_eq_some_iff_getElem.mp hSlot
    have hSome : (info (im.node n).kind).roles[s]? = some .mem := by
      rw [getElem?_eq_getElem hLt]
      simpa using hMem
    unfold roleAt
    dsimp only
    rw [hSome]
  unfold checkRoles at h
  rw [flatMap_eq_nil_iff] at h
  have hOne := h (root, s) (mem_zipIdx_iff_getElem?.mpr hGet)
  simp only [hValid, hRole, Bool.not_true, Bool.false_eq_true, if_false, append_eq_nil_iff] at hOne
  obtain ⟨hMem, -⟩ := hOne
  rcases hProd : producesMemoryState (im.node root).kind with _ | _
  · simp [hProd] at hMem
  refine ⟨hProd, fun hPhi => ?_⟩
  simp only [hPhi, if_true] at hMem
  rcases hOff : im.memoryPhiOffender (im.nodeCount + 2) root with _ | off
  · rfl
  · rw [hOff] at hMem
    cases hMem

/-- What the memory-chain check accepts is sound, whatever the graph, and it accepts every
graph whose chains are plain; a verified graph passed it. -/
theorem memoryAccepted_spec (im : Image) :
    (im.MemoryAccepted → ∀ n root, im.Consumes n root → im.Sound root) ∧
      ((im.node Graph.startNode).kind = .start →
        (∀ n root, im.Consumes n root → im.Plain root) → im.MemoryAccepted) ∧
      ∀ used, im.verifyDiags used = some [] → im.MemoryAccepted := by
  refine ⟨fun hAcc n root hConsumes => ?_, fun hStart hPlain n hn hLive => ⟨?_, ?_⟩, ?_⟩
  · have hWalk := (hAcc n hConsumes.1 hConsumes.2.1).1
    rw [checkMemoryChain_eq hConsumes] at hWalk
    exact sound_of_memWalk hWalk
  · refine checkMemoryChain_eq_nil hn fun root hConsumes => ?_
    have hRoot := hPlain n root hConsumes
    exact memWalk_of_plain hRoot (walking_start hRoot)
  · exact fun root hConsumes => memInputOk_of_plain hStart (hPlain n root hConsumes)
  intro used h n hn hLive
  unfold verifyDiags at h
  obtain ⟨nodes, hNodes, h⟩ := Option.bind_eq_some_iff.mp h
  obtain ⟨vectors, -, h⟩ := Option.bind_eq_some_iff.mp h
  have hAll := Option.some.inj h
  simp only [append_eq_nil_iff, flatMap_eq_nil_iff] at hAll
  have hMem := mem_range.mpr hn
  refine ⟨hAll.1.1.1.1.1.2 n hMem, fun root hConsumes => ?_⟩
  have hNode := mapM_flatten_nil hNodes hAll.1.1.1.1.1.1 hMem
  unfold checkNode at hNode
  obtain ⟨types, -, hNode⟩ := Option.bind_eq_some_iff.mp hNode
  have hChecks := Option.some.inj hNode
  simp only [append_eq_nil_iff] at hChecks
  exact memInputOk_of_checkRoles hChecks.1.1.1.1.1.2 hConsumes

/-- Every predecessor of a chain node is a memory state, and a cycle of predecessors has a
loop phi, with no exception for a phi that carries itself. -/
structure Strict (im : Image) (root : NodeId) : Prop where
  producers : ∀ v, ReflTransGen (fun u v => v ∈ im.memChildren u) root v →
    im.validId v = true ∧ producesMemoryState (im.node v).kind = true
  acyclic : ∀ v, ReflTransGen (fun u v => v ∈ im.memChildren u) root v →
    ¬ TransGen (fun u v => v ∈ im.memChildren u ∧ ¬ im.LoopPhi v) v v

/-- A load behind a phi of a plain merge that carries itself. -/
def selfMerge : Store :=
  Store.fresh.run [.make .region [0, 0] 0 0, .make .phi [1, 0] 0 0, .appendInput 2 2,
    .make .loadStatic [0, 2] 0 0]

/-- The phi is a cycle without a loop phi, and the check accepts it. -/
theorem not_memoryAccepted_strict : ¬ (selfMerge.image.MemoryAccepted ↔
      ∀ n root, selfMerge.image.Consumes n root → selfMerge.image.Strict root) := by
  have hCount : selfMerge.image.nodeCount = 4 := by decide +kernel
  have hLoad : selfMerge.image.Consumes 3 2 := by
    refine ⟨?_, by decide +kernel, 1, by decide +kernel, by decide +kernel, by decide +kernel⟩
    rw [hCount]
    decide
  have hOnly : ∀ n root, selfMerge.image.Consumes n root → root = 2 := by
    rintro n root ⟨hn, -, s, hSlot, hGet, -⟩
    have hSlots : ∀ m < 4, ∀ s ∈ memSlot (selfMerge.image.node m).kind,
        (selfMerge.image.node m).inputs[s]? = some 2 := by decide +kernel
    rw [hCount] at hn
    rw [hSlots n hn s hSlot] at hGet
    exact (Option.some.inj hGet).symm
  have hAccepted : selfMerge.image.MemoryAccepted := by
    intro n hn _
    have hWalks : ∀ m < 4, selfMerge.image.checkMemoryChain m = [] := by decide +kernel
    refine ⟨hWalks n (hCount ▸ hn), fun root hRoot => ?_⟩
    rw [hOnly n root hRoot]
    exact ⟨by decide +kernel, by decide +kernel⟩
  intro hIff
  have hStrict := hIff.mp hAccepted 3 2 hLoad
  refine hStrict.acyclic 2 ReflTransGen.refl (TransGen.single ⟨by decide +kernel, ?_⟩)
  rintro ⟨-, -, -, hLoop⟩
  revert hLoop
  decide +kernel

end B2Compiler.Ir.Image
