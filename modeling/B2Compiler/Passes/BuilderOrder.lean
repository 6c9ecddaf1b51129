import B2Compiler.Lib.Marking
import B2Compiler.Passes.Blocks

/-!
# The block order of the graph builder

From the successor edges of the blocks the builder computes the blocks that are reachable
from block 0, a reverse postorder of them, their immediate dominators, the back edges, the
natural loops, and the order in which it will materialise the blocks.  The loops of the
source run with fuel, since not all of them come to an end on every graph; each turn that
the source counts against the build budget is counted here.

A vector indexed by blocks is a function on block numbers, and the value `0xFFFFFFFF` of a
dominator or of a loop index, which no block has, is `none`.
-/

namespace B2Compiler.Passes.Builder

open Lib.Fuel List Function
open Lib.Marking

/-- What `computeBlocks` leaves behind: the number of blocks and the successors of each in
the order of its edges.  Every successor is a block, as the source checks again at each
use. -/
structure Cfg where
  nb : Nat
  succ : Nat → List Nat
  nonempty : 0 < nb
  succ_lt : ∀ b, ∀ t ∈ succ b, t < nb

theorem blockOf_lt {m : Rbc.Method} (h : 0 < m.code.length) (pc : Nat) :
    blockOf m pc < (starts m).length := by
  have hZero : 0 ∈ starts m := mem_starts.mpr ⟨h, by simp [isLeader]⟩
  have hPos : 0 < (starts m).length := List.length_pos_of_mem hZero
  have hLe := List.length_filter_le (· ≤ pc) (starts m)
  unfold blockOf
  omega

/-- The graph of a method's blocks. -/
def cfgOf (m : Rbc.Method) (h : 0 < m.code.length) : Cfg where
  nb := (starts m).length
  succ := succ m
  nonempty := Nat.zero_lt_of_lt (blockOf_lt h 0)
  succ_lt := by
    have hAdd : ∀ target t, t ∈ addSucc m target → t < (starts m).length := by
      intro target t ht
      unfold addSucc at ht
      split at ht
      · rw [mem_singleton.mp ht]
        exact blockOf_lt h target
      · cases ht
    intro b t ht
    unfold succ at ht
    dsimp only at ht
    split at ht
    · exact hAdd _ t ht
    split at ht
    · rcases mem_append.mp ht with ht | ht
      all_goals exact hAdd _ t ht
    split at ht
    · obtain ⟨target, -, ht⟩ := mem_flatMap.mp ht
      exact hAdd target t ht
    · split at ht
      · exact hAdd _ t ht
      · cases ht

def kBuildBudget : Nat := 8000000

/-- The build has not failed: the only failure before the end of `computeOrder` is that the
work exceeds the budget. -/
def ok (ticks : Nat) : Bool := ticks ≤ kBuildBudget

section Phases

variable (g : Cfg)

/-! ## Reachable blocks and their reverse postorder -/

/-- Reachability over normal edges from block 0. -/
def reachability (ticks n : Nat) : Option (State Nat) :=
  search g.succ n (init (fun _ => false) [0] ticks)

/-- The depth first search: blocks with the index of their next edge, the top of the stack
first, and the finished blocks, the latest first. -/
structure Dfs where
  work : List (Nat × Nat)
  done : Nat → Bool
  onStack : Nat → Bool
  post : List Nat
  ticks : Nat

/-- One turn of the search: the next edge of the block on top, or its end. -/
def dfsTurn (reachable : Nat → Bool) (s : Dfs) : Dfs :=
  match s.work with
  | [] => s
  | (b, i) :: rest =>
    match (g.succ b)[i]? with
    | some t =>
      if reachable t && !s.done t && !s.onStack t then
        { s with
          onStack := update s.onStack t true
          work := (t, 0) :: (b, i + 1) :: rest
          ticks := s.ticks + 1 }
      else { s with work := (b, i + 1) :: rest, ticks := s.ticks + 1 }
    | none =>
      { work := rest
        done := update s.done b true
        onStack := update s.onStack b false
        post := b :: s.post
        ticks := s.ticks + 1 }

/-- At the start block 0 is on the stack, but not marked as such. -/
def dfsStart (ticks : Nat) : Dfs := ⟨[(0, 0)], fun _ => false, fun _ => false, [], ticks⟩

/-- The search from block 0; its finished blocks are the reverse postorder. -/
def postorder (reachable : Nat → Bool) (ticks n : Nat) : Option Dfs :=
  whileLoop (fun s => !s.work.isEmpty) (fun _ s => some (dfsTurn g reachable s)) n (dfsStart ticks)

/-- Positions in the order: a block that stands there twice has its last one. -/
def rpoPos (rpo : List Nat) : Nat → Nat :=
  rpo.zipIdx.foldl (fun pos e => update pos e.1 e.2) fun _ => 0xFFFFFFFF

/-- The sources of the edges into a block, in block order, one for each edge. -/
def preds (reachable : Nat → Bool) (t : Nat) : List Nat :=
  (range g.nb).flatMap fun b =>
    ((g.succ b).filter fun t' => t' == t && (reachable t' && reachable b)).map fun _ => b

end Phases

/-! ## Dominators -/

section Dominators

variable (pos : Nat → Nat) (idom : Nat → Option Nat)

/-- `while (rpoPos[x] > rpoPos[y]) x = idom_[x];` -/
def climb (y n x : Nat) : Option Nat :=
  whileLoop (fun x => pos y < pos x) (fun _ x => idom x) n x

/-- The nested loops of `intersect(p, newIdom)`. -/
def intersect (n p newIdom : Nat) : Option Nat :=
  (whileLoop (fun s : Nat × Nat => s.1 != s.2) (fun n s => (climb pos idom s.2 n s.1).bind fun x =>
      (climb pos idom x n s.2).map fun y => (x, y)) n (p, newIdom)).map Prod.fst

/-- One predecessor on the way to the new dominator of a block. -/
def meetPred (n : Nat) (newIdom : Option Nat) (p : Nat) : Option (Option Nat) :=
  match idom p, newIdom with
  | none, newIdom => some newIdom
  | some _, none => some (some p)
  | some _, some q => (intersect pos idom n p q).map some

/-- The new dominator of a block: what its processed predecessors have in common. -/
def meetPreds (preds : List Nat) (n : Nat) : Option (Option Nat) :=
  preds.foldlM (meetPred pos idom n) none

/-- The dominators, whether the round has changed one, and the work done. -/
structure Doms where
  idom : Nat → Option Nat
  changed : Bool
  ticks : Nat

/-- Process one block in a round. -/
def visitBlock (preds : Nat → List Nat) (n : Nat) (s : Doms) (b : Nat) : Option Doms :=
  (meetPreds pos s.idom (preds b) n).map fun newIdom =>
    if newIdom ≠ none ∧ s.idom b ≠ newIdom then
      ⟨update s.idom b newIdom, true, s.ticks + 1⟩
    else { s with ticks := s.ticks + 1 }

/-- One round over the order without its first block. -/
def round (preds : Nat → List Nat) (rest : List Nat) (n : Nat) (s : Doms) : Option Doms :=
  rest.foldlM (visitBlock pos preds n) { s with changed := false }

/-- Rounds until nothing changes or the budget is exceeded. -/
def dominators (preds : Nat → List Nat) (rpo : List Nat) (ticks n : Nat) : Option Doms :=
  match rpo with
  | [] => some ⟨fun _ => none, false, ticks⟩
  | r :: rest =>
    whileLoop (fun s => s.changed && ok s.ticks) (round pos preds rest) n
      ⟨update (fun _ => none) r (some r), true, ticks⟩

def dominates (a : Nat) : Nat → Option Nat → Option Bool
  | 0, _ => none
  | _ + 1, none => some false
  | n + 1, some x =>
    if x = a then some true
    else if idom x = some x then some false
    else dominates a n (idom x)

end Dominators

/-! ## Edges and loops -/

section Edges

variable (g : Cfg) (reachable : Nat → Bool) (idom : Nat → Option Nat)

/-- The edges between reachable blocks in the order in which they are classified. -/
def reachableEdges : List (Nat × Nat) :=
  ((range g.nb).filter reachable).flatMap fun b =>
    ((g.succ b).filter reachable).map fun t => (b, t)

/-- Each edge with the answer of `dominates(t, b)`. -/
def classify (n : Nat) : Option (List ((Nat × Nat) × Bool)) :=
  (reachableEdges g reachable).foldlM (fun done e =>
    (dominates idom e.2 n (some e.1)).map fun back => done ++ [(e, back)]) []

/-- The sources of the classified edges into a block. -/
def sources (edges : List ((Nat × Nat) × Bool)) (back : Bool) (t : Nat) : List Nat :=
  (edges.filter fun e => e.1.2 == t && e.2 == back).map fun e => e.1.1

structure Loop where
  header : Nat
  blocks : List Nat
  deriving DecidableEq, Repr

/-- The loops found so far and the work done. -/
structure Loops where
  loops : List Loop
  ticks : Nat

/-- The loop of one header: backward reachability from its back edges, stopping at it. -/
def findLoop (backPreds : Nat → List Nat) (n : Nat) (s : Loops) (h : Nat) : Option Loops :=
  if (backPreds h).isEmpty || !reachable h then some { s with ticks := s.ticks + 1 }
  else
    (search (fun b => (preds g reachable b).filter reachable) n
      (init (fun b => b == h) (backPreds h) (s.ticks + 1))).map fun r =>
        ⟨s.loops ++ [⟨h, (range g.nb).filter r.marked⟩], r.ticks⟩

/-- The loops of all headers in block order. -/
def findLoops (backPreds : Nat → List Nat) (ticks n : Nat) : Option Loops :=
  (range g.nb).foldlM (findLoop g reachable backPreds n) ⟨[], ticks⟩

def claimBlocks (loops : List Loop) (loopOf : Nat → Option Nat) (loop : Loop × Nat) :
    Nat → Option Nat :=
  loop.1.blocks.foldl (fun loopOf b =>
    match loopOf b with
    | none => update loopOf b (some loop.2)
    | some j =>
      if loop.1.blocks.length < ((loops[j]?).map fun l => l.blocks.length).getD 0 then
        update loopOf b (some loop.2)
      else loopOf) loopOf

def innermost (loops : List Loop) : Nat → Option Nat :=
  loops.zipIdx.foldl (claimBlocks loops) fun _ => none

/-- The state of the ordering; `ready` is a heap, so its least element is taken. -/
structure Kahn where
  indeg : Nat → Nat
  ready : List Nat
  queued : Nat → Bool
  order : List Nat
  ticks : Nat

/-- Count down the forward edge to one successor of `b`. -/
def kahnEdge (b n : Nat) (s : Kahn) (t : Nat) : Option Kahn :=
  if reachable t then
    (dominates idom t n (some b)).map fun back =>
      if !back && 0 < s.indeg t then
        let indeg := update s.indeg t (s.indeg t - 1)
        if indeg t = 0 && !s.queued t then
          { s with
            indeg := indeg
            queued := update s.queued t true
            ready := s.ready ++ [t] }
        else { s with indeg := indeg }
      else s
  else some s

/-- Order the least block that is ready. -/
def kahnTurn (n : Nat) (s : Kahn) : Option Kahn :=
  match s.ready.min? with
  | none => some s
  | some b =>
    (g.succ b).foldlM (kahnEdge reachable idom b n)
      { s with ready := s.ready.erase b, order := s.order ++ [b], ticks := s.ticks + 1 }

/-- At the start the reachable blocks without forward predecessors are ready. -/
def kahnStart (fwdPreds : Nat → List Nat) (ticks : Nat) : Kahn :=
  let indeg b := if reachable b then (fwdPreds b).length else 0
  let ready := (range g.nb).filter fun b => reachable b && indeg b == 0
  ⟨indeg, ready, fun b => ready.contains b, [], ticks⟩

def kahn (fwdPreds : Nat → List Nat) (ticks n : Nat) : Option Kahn :=
  whileLoop (fun s => !s.ready.isEmpty) (kahnTurn g reachable idom) n
    (kahnStart g reachable fwdPreds ticks)

end Edges

/-- What `computeOrder` leaves behind. -/
structure BlockOrder where
  reachable : Nat → Bool
  idom : Nat → Option Nat
  fwdPreds : Nat → List Nat
  backPreds : Nat → List Nat
  loops : List Loop
  loopOf : Nat → Option Nat
  order : List Nat
  ticks : Nat

/-- The builder refuses: the work has exceeded the budget. -/
def BlockOrder.exceeded (r : BlockOrder) : Prop := kBuildBudget < r.ticks

/-- The builder refuses: a forward edge cycle exists. -/
def BlockOrder.irreducible (g : Cfg) (r : BlockOrder) : Prop :=
  r.order.length ≠ ((range g.nb).filter r.reachable).length

instance (r : BlockOrder) : Decidable r.exceeded :=
  inferInstanceAs (Decidable (kBuildBudget < r.ticks))

/-- `computeOrder`, on a graph and with the work done before it. -/
def computeOrder (g : Cfg) (ticks n : Nat) : Option BlockOrder :=
  (reachability g ticks n).bind fun r =>
  (postorder g r.marked r.ticks n).bind fun d =>
  (dominators (rpoPos d.post) (preds g r.marked) d.post d.ticks n).bind fun doms =>
  (classify g r.marked doms.idom n).bind fun edges =>
  (findLoops g r.marked (sources edges true) doms.ticks n).bind fun ls =>
  (kahn g r.marked doms.idom (sources edges false) ls.ticks n).map fun k =>
    { reachable := r.marked
      idom := doms.idom
      fwdPreds := sources edges false
      backPreds := sources edges true
      loops := ls.loops
      loopOf := innermost ls.loops
      order := k.order
      ticks := k.ticks }

end B2Compiler.Passes.Builder
