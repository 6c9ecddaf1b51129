import B2Compiler.Interp.Value
import B2Compiler.Ir.StoreRecords
import B2Compiler.Lib.MemoTable

/-!
# The constants of the graph builder

The builder makes one constant node for each value a method loads and remembers it in
one of four tables.  The tables for `float` and `double` are keyed by the values
themselves, so they identify what the language's equality identifies: the two zeros are
one key, and a not-a-number is never found again.  What a load is given is therefore
exact except for zeros, which get the sign of the first zero of their type.
-/

namespace B2Compiler.Passes.GraphBuilder

open Interp
open Ir (Call NodeId NodeKind Store)
open Lib
open Rbc

def isZeroF (v : BitVec 32) : Bool := v &&& 0x7FFFFFFF == 0

def isZeroD (v : BitVec 64) : Bool := v &&& 0x7FFFFFFFFFFFFFFF == 0

/-- `==` of two floats, on their patterns. -/
def eqF (a b : BitVec 32) : Bool :=
  !isNanF a && !isNanF b && (a == b || isZeroF a && isZeroF b)

/-- `==` of two doubles, on their patterns. -/
def eqD (a b : BitVec 64) : Bool :=
  !isNanD a && !isNanD b && (a == b || isZeroD a && isZeroD b)

/-! ## The builder -/

/-- A remembered value and its node. -/
abbrev Memo (w : Nat) := List (BitVec w × NodeId)

/-- Build diagnostic. -/
structure BuildDiag where
  pc : Nat := 0
  message : String := ""
  deriving DecidableEq, Repr, Inhabited

/-- At most this many diagnostics are kept. -/
def kMaxDiags : Nat := 100

/-- The part of the builder's state that constants and registers live in. -/
structure Builder where
  g : Store := Store.fresh
  constI : Memo 32 := []
  constL : Memo 64 := []
  constF : Memo 32 := []
  constD : Memo 64 := []
  slots : List NodeId := []
  slotsVersion : BitVec 32 := 0
  diags : List BuildDiag := []
  failed : Bool := false
  deriving DecidableEq, Repr

namespace Builder

variable (b : Builder)

def fail (pc : Nat) (msg : String) : Builder :=
  { b with
    diags := if b.diags.length < kMaxDiags then b.diags ++ [⟨pc, msg⟩] else b.diags
    failed := true }

/-- Writes a register; the registers follow the locals. -/
def setReg (m : Method) (pc reg : Nat) (d : NodeId) : Builder :=
  if reg < m.numRegs then
    { b with slots := b.slots.set (m.numLocals + reg) d, slotsVersion := b.slotsVersion + 1 }
  else b.fail pc ("register r" ++ toString reg ++ " out of range")

/-- The node remembered for a value, or a new one that is remembered from now on. -/
def memoized {w : Nat} (eq : BitVec w → BitVec w → Bool)
    (make : Store → BitVec w → Store × NodeId) (t : Memo w) (g : Store) (v : BitVec w) :
    Memo w × Store × NodeId :=
  match t.find? (eq ·.1 v) with
  | some e => (t, g, e.2)
  | none =>
    let (g', n) := make g v
    (t ++ [(v, n)], g', n)

def constInt (v : BitVec 32) : NodeId × Builder :=
  let (t, g, n) := memoized (· == ·) Store.constantI b.constI b.g v
  (n, { b with g, constI := t })

def constLong (v : BitVec 64) : NodeId × Builder :=
  let (t, g, n) := memoized (· == ·) Store.constantL b.constL b.g v
  (n, { b with g, constL := t })

def constFloat (v : BitVec 32) : NodeId × Builder :=
  let (t, g, n) := memoized eqF Store.constantF b.constF b.g v
  (n, { b with g, constF := t })

def constDouble (v : BitVec 64) : NodeId × Builder :=
  let (t, g, n) := memoized eqD Store.constantD b.constD b.g v
  (n, { b with g, constD := t })

def wantedName : ConstKind → String
  | .fieldRef => "fieldref"
  | .methodRef => "methodref"
  | .interfaceMethodRef => "interfacemethodref"
  | .klass => "class"
  | _ => "utf8/string"

/-- A pool entry of the wanted kind. -/
def cpAt (m : Method) (pc idx : Nat) (want : ConstKind) : Option Const × Builder :=
  match m.cp[idx]? with
  | none => (none, b.fail pc ("constant pool index " ++ toString idx ++ " out of range"))
  | some c =>
    if c.kind = want then (some c, b)
    else (none, b.fail pc ("constant pool entry " ++ toString idx ++ " is " ++
      c.kind.kindName ++ ", expected " ++ wantedName want))

/-- `lowerInstruction` on the loads of numeric constants. -/
def lowerConstant (m : Method) (pc : Nat) (ins : Ins) : Bool × Builder :=
  match ins.op with
  | .iconst =>
    let (n, b') := b.constInt ins.imm
    (true, b'.setReg m pc ins.dstReg n)
  | .fconst =>
    let (n, b') := b.constFloat ins.imm
    (true, b'.setReg m pc ins.dstReg n)
  | .lconst =>
    match b.cpAt m pc ins.immIdx .int64 with
    | (none, b') => (false, b')
    | (some c, b') =>
      let (n, b') := b'.constLong c.i64
      (true, b'.setReg m pc ins.dstReg n)
  | .dconst =>
    match b.cpAt m pc ins.immIdx .double with
    | (none, b') => (false, b')
    | (some c, b') =>
      let (n, b') := b'.constDouble c.f64
      (true, b'.setReg m pc ins.dstReg n)
  | _ => (false, b)

end Builder

/-! ## Literals and the sequence of requests -/

inductive Literal where
  | int (v : BitVec 32)
  | long (v : BitVec 64)
  | float (bits : BitVec 32)
  | double (bits : BitVec 64)
  deriving DecidableEq, Repr

namespace Literal

/-- The kind of node that carries a literal. -/
def kind : Literal → NodeKind
  | .int _ => .constantI
  | .long _ => .constantL
  | .float _ => .constantF
  | .double _ => .constantD

/-- The constant word such a node has. -/
def word : Literal → BitVec 64
  | .int v => v.signExtend 64
  | .long v => v
  | .float bits => bits.setWidth 64
  | .double bits => bits

/-- A zero of a type that has two of them. -/
def isZero : Literal → Bool
  | .float bits => isZeroF bits
  | .double bits => isZeroD bits
  | _ => false

def int? : Literal → Option (BitVec 32)
  | .int v => some v
  | _ => none

def long? : Literal → Option (BitVec 64)
  | .long v => some v
  | _ => none

def float? : Literal → Option (BitVec 32)
  | .float v => some v
  | _ => none

def double? : Literal → Option (BitVec 64)
  | .double v => some v
  | _ => none

end Literal

/-- The constant an instruction loads. -/
def literalOf (m : Method) (ins : Ins) : Option Literal :=
  match ins.op with
  | .iconst => some (.int ins.imm)
  | .fconst => some (.float ins.imm)
  | .lconst =>
    match m.cp[ins.immIdx]? with
    | some c => if c.kind = .int64 then some (.long c.i64) else none
    | none => none
  | .dconst =>
    match m.cp[ins.immIdx]? with
    | some c => if c.kind = .double then some (.double c.f64) else none
    | none => none
  | _ => none

/-- What the builder does between two loads: an instruction asks for an integer
constant of its own, the graph is edited, or the slots change. -/
inductive Action where
  | load (pc : Nat) (ins : Ins)
  | constInt (v : BitVec 32)
  | call (c : Call)
  | slots (slots : List NodeId)
  deriving Repr

/-- One action. -/
def Builder.act (m : Method) (b : Builder) : Action → Builder
  | .load pc ins => (b.lowerConstant m pc ins).2
  | .constInt v => (b.constInt v).2
  | .call c => { b with g := b.g.step c }
  | .slots slots => { b with slots }

/-- The state after a sequence of actions. -/
def Builder.acts (m : Method) (b : Builder) (actions : List Action) : Builder :=
  actions.foldl (Builder.act m) b

def Action.request (m : Method) : Action → Option Literal
  | .load _ ins => literalOf m ins
  | .constInt v => some (.int v)
  | _ => none

/-- The constants asked for, in order. -/
def requests (m : Method) (actions : List Action) : List Literal :=
  actions.filterMap (Action.request m)

def Builder.supply (b : Builder) : Literal → NodeId × Builder
  | .int v => b.constInt v
  | .long v => b.constLong v
  | .float bits => b.constFloat bits
  | .double bits => b.constDouble bits

/-- A node carries a literal. -/
def Carries (g : Store) (n : NodeId) (l : Literal) : Prop :=
  n < g.nodes.length ∧ (g.node n).kind = l.kind ∧ (g.node n).constValue = l.word

instance (g : Store) (n : NodeId) (l : Literal) : Decidable (Carries g n l) :=
  inferInstanceAs (Decidable (_ ∧ _ ∧ _))

/-! ## Constants survive every call -/

/-- Later stages of a graph keep the kind and the constant of every node. -/
structure Keeps (g h : Store) : Prop where
  length : g.nodes.length ≤ h.nodes.length
  kind : ∀ n, n < g.nodes.length → (h.node n).kind = (g.node n).kind
  constValue : ∀ n, n < g.nodes.length → (h.node n).constValue = (g.node n).constValue

theorem Keeps.refl (g : Store) : Keeps g g :=
  ⟨Nat.le_refl _, fun _ _ => rfl, fun _ _ => rfl⟩

theorem keeps_of_nodes {g h : Store} (hNodes : h.nodes = g.nodes) : Keeps g h := by
  refine ⟨Nat.le_of_eq (by rw [hNodes]), fun n _ => ?_, fun n _ => ?_⟩ <;>
    rw [Store.node, hNodes, Store.node]

theorem keeps_of_modify {g h : Store} {n : NodeId} {f : Ir.NodeRec → Ir.NodeRec}
    (hNodes : h.nodes = g.nodes.modify n f) (hKind : ∀ nd, (f nd).kind = nd.kind)
    (hConst : ∀ nd, (f nd).constValue = nd.constValue) : Keeps g h := by
  have hNode : ∀ m, h.node m = if m = n ∧ n < g.nodes.length then f (g.node m) else g.node m := by
    intro m
    rw [Store.node, hNodes, Ir.getD_modify]
    grind [Store.node]
  refine ⟨by simp [hNodes], fun m _ => ?_, fun m _ => ?_⟩ <;> rw [hNode m] <;> split
  · exact hKind _
  · rfl
  · exact hConst _
  · rfl

theorem keeps_makeRaw (g : Store) (kind : NodeKind) (ins : List NodeId) (p p2 : BitVec 32)
    (c : BitVec 64) : Keeps g (g.makeRaw kind ins p p2 c).1 := by
  have hNode : ∀ n, n < g.nodes.length → (g.makeRaw kind ins p p2 c).1.node n = g.node n := by
    intro n hn
    rw [Store.makeRaw_node, if_neg (Nat.ne_of_lt hn)]
  refine ⟨?_, fun n hn => by rw [hNode n hn], fun n hn => by rw [hNode n hn]⟩
  rw [Store.makeRaw_length]
  exact Nat.le_succ _

/-- No call takes a constant away or changes it, not even the death of its node. -/
theorem keeps_step (g : Store) (c : Call) : Keeps g (g.step c) := by
  cases c with
  | makeFrameState method pc locals caller vobjs =>
    obtain ⟨hLength, hKind, hConst⟩ := keeps_makeRaw (g.addFrameStateDesc method pc caller
      vobjs).1 .frameState locals (BitVec.ofNat 32 g.fsDesc.length) 0 0
    exact ⟨hLength, hKind, hConst⟩
  | appendFrameStateVobj fs vobj =>
    apply keeps_of_nodes
    simp only [Store.step, Store.appendFrameStateVobj]
    split <;> rfl
  | addSpecMeta sm | addDependency dep => exact keeps_of_nodes rfl
  | attachSpecMeta n id => exact keeps_of_modify rfl (fun _ => rfl) (fun _ => rfl)
  | setInput n slot v => exact keeps_of_nodes (Store.setInput_nodes n slot v)
  | appendInput n v =>
    by_cases hn : n < g.nodes.length
    · have hNodes : (g.step (.appendInput n v)).nodes = g.nodes.modify n fun nd =>
          { nd with
            edgeOffset := g.edgePool.length
            numInputs := ((g.node n).numInputs + 1) % 65536 } := by
        simp only [Store.step, Store.appendInput, hn, if_true]
        split <;> rfl
      exact keeps_of_modify hNodes (fun _ => rfl) (fun _ => rfl)
    · apply keeps_of_nodes
      simp only [Store.step, Store.appendInput, hn, if_false]
  | replaceNode oldNode withNode =>
    rcases Store.replaceNode_cases (g := g) oldNode withNode with
      hSame | ⟨-, -, -, -, hEq⟩
    · apply keeps_of_nodes
      rw [Store.step, hSame]
    · refine keeps_of_modify (n := oldNode) (f := Store.NodeRec.replacedAt (g.epoch + 1)) ?_
        (fun _ => rfl) (fun _ => rfl)
      rw [Store.step, hEq, ← Store.foldl_rewireUse_nodes (g := g) oldNode withNode]
      rfl
  | killNode n =>
    by_cases hn : n < g.nodes.length
    · refine keeps_of_modify (n := n) (f := Store.NodeRec.killedAt (g.epoch + 1)) ?_
        (fun _ => rfl) (fun _ => rfl)
      simp only [Store.step, Store.killNode, hn, if_true]
      rfl
    · apply keeps_of_nodes
      simp only [Store.step, Store.killNode, hn, if_false]
  | nextEpoch => exact keeps_of_nodes rfl
  | _ => exact keeps_makeRaw _ _ _ _ _ _

theorem Carries.mono {g h : Store} {n : NodeId} {l : Literal} (hCarries : Carries g n l)
    (hKeeps : Keeps g h) : Carries h n l := by
  obtain ⟨hRange, hKind, hConst⟩ := hCarries
  exact ⟨Nat.lt_of_lt_of_le hRange hKeeps.length, (hKeeps.kind n hRange).trans hKind,
    (hKeeps.constValue n hRange).trans hConst⟩

theorem Carries.unique {g : Store} {n : NodeId} {l l' : Literal} (h : Carries g n l)
    (h' : Carries g n l') : l = l' := by
  have hKind : l.kind = l'.kind := h.2.1.symm.trans h'.2.1
  have hWord : l.word = l'.word := h.2.2.symm.trans h'.2.2
  cases l <;> cases l' <;> simp only [Literal.kind, reduceCtorEq] at hKind
  case int.int v w =>
    have hBack : ∀ x : BitVec 32, (x.signExtend 64).setWidth 32 = x := by
      intro x
      ext i hi
      simp only [BitVec.getElem_setWidth, BitVec.getLsbD_signExtend]
      grind
    rw [← hBack v, ← hBack w]
    exact congrArg (fun x : BitVec 64 => Literal.int (x.setWidth 32)) hWord
  case long.long v w => exact congrArg Literal.long hWord
  case float.float v w =>
    have hBack : ∀ x : BitVec 32, (x.setWidth 64).setWidth 32 = x := by
      intro x
      simp
    rw [← hBack v, ← hBack w]
    exact congrArg (fun x : BitVec 64 => Literal.float (x.setWidth 32)) hWord
  case double.double v w => exact congrArg Literal.double hWord

variable {w : Nat} {eq : BitVec w → BitVec w → Bool} {make : Store → BitVec w → Store × NodeId}
  {lit : BitVec w → Literal} {g : Store} {t : Memo w} {reqs : List (BitVec w)}

/-- A table holds the keys its requests left, each with a node that carries it. -/
structure Remembers (eq : BitVec w → BitVec w → Bool) (lit : BitVec w → Literal) (g : Store)
    (t : Memo w) (reqs : List (BitVec w)) : Prop where
  keys : t.map Prod.fst = requestKeys eq reqs
  carries : ∀ e ∈ t, Carries g e.2 (lit e.1)

theorem Remembers.mono {h : Store} (hRem : Remembers eq lit g t reqs) (hKeeps : Keeps g h) :
    Remembers eq lit h t reqs :=
  ⟨hRem.keys, fun e hMem => (hRem.carries e hMem).mono hKeeps⟩

theorem carries_makeRaw (g : Store) (l : Literal) :
    Carries (g.makeRaw l.kind [] 0 0 l.word).1 (g.makeRaw l.kind [] 0 0 l.word).2 l := by
  have hNode := Store.makeRaw_node (g := g) l.kind [] 0 0 l.word g.nodes.length
  rw [if_pos rfl] at hNode
  refine ⟨?_, ?_, ?_⟩
  · rw [Store.makeRaw_length]
    exact Nat.lt_succ_self _
  · exact congrArg Ir.NodeRec.kind hNode
  · exact congrArg Ir.NodeRec.constValue hNode

/-- A request keeps the table's account and every older constant. -/
theorem memoized_remembers (hMake : ∀ g v, make g v = g.makeRaw (lit v).kind [] 0 0 (lit v).word)
    (hRem : Remembers eq lit g t reqs) (v : BitVec w) :
    Remembers eq lit (Builder.memoized eq make t g v).2.1 (Builder.memoized eq make t g v).1
      (reqs ++ [v]) ∧ Keeps g (Builder.memoized eq make t g v).2.1 := by
  have hKey : (requestKeys eq reqs).find? (eq · v) = (t.find? (eq ·.1 v)).map Prod.fst := by
    rw [← hRem.keys, List.find?_map]
    rfl
  cases hFound : t.find? (eq ·.1 v) with
  | some e =>
    rw [hFound] at hKey
    simp only [Builder.memoized, hFound]
    refine ⟨⟨?_, hRem.carries⟩, Keeps.refl g⟩
    rw [requestKeys_append, requestKey, hKey, hRem.keys]
    rfl
  | none =>
    rw [hFound] at hKey
    simp only [Builder.memoized, hFound, hMake]
    have hKeeps := keeps_makeRaw g (lit v).kind [] 0 0 (lit v).word
    refine ⟨⟨?_, ?_⟩, hKeeps⟩
    · rw [requestKeys_append, requestKey, hKey, List.map_append, hRem.keys]
      rfl
    · intro e hMem
      rcases List.mem_append.mp hMem with hOld | hNew
      · exact (hRem.carries e hOld).mono hKeeps
      · rw [List.mem_singleton.mp hNew]
        exact carries_makeRaw g (lit v)

/-- The node supplied carries the first requested value that equals the one asked for. -/
theorem memoized_carries (hMake : ∀ g v, make g v = g.makeRaw (lit v).kind [] 0 0 (lit v).word)
    (hTrans : ∀ a b c, eq a b = true → eq b c = true → eq a c = true)
    (hRem : Remembers eq lit g t reqs) (v : BitVec w) :
    Carries (Builder.memoized eq make t g v).2.1 (Builder.memoized eq make t g v).2.2
      (lit ((reqs.find? (eq · v)).getD v)) := by
  have hKey : reqs.find? (eq · v) = (t.find? (eq ·.1 v)).map Prod.fst := by
    rw [← find?_requestKeys hTrans, ← hRem.keys, List.find?_map]
    rfl
  cases hFound : t.find? (eq ·.1 v) with
  | some e =>
    rw [hKey, hFound]
    simp only [Builder.memoized, hFound]
    exact hRem.carries e (List.mem_of_find?_eq_some hFound)
  | none =>
    rw [hKey, hFound]
    simp only [Builder.memoized, hFound, hMake]
    exact carries_makeRaw g (lit v)

/-! ## The four tables over a run -/

/-- The language's equality of two literals; values of two types are never compared. -/
def Literal.equals : Literal → Literal → Bool
  | .int a, .int b => a == b
  | .long a, .long b => a == b
  | .float a, .float b => eqF a b
  | .double a, .double b => eqD a b
  | _, _ => false

/-- The four tables account for the requests made so far. -/
structure Tracks (reqs : List Literal) (b : Builder) : Prop where
  int : Remembers (· == ·) .int b.g b.constI (reqs.filterMap Literal.int?)
  long : Remembers (· == ·) .long b.g b.constL (reqs.filterMap Literal.long?)
  float : Remembers eqF .float b.g b.constF (reqs.filterMap Literal.float?)
  double : Remembers eqD .double b.g b.constD (reqs.filterMap Literal.double?)

theorem isZeroF_of_eqF {a b : BitVec 32} (h : eqF a b = true) : a = b ∨ isZeroF a = true ∧
    isZeroF b = true := by
  simp only [eqF, Bool.and_eq_true, Bool.or_eq_true, beq_iff_eq] at h
  exact h.2

theorem isZeroD_of_eqD {a b : BitVec 64} (h : eqD a b = true) : a = b ∨ isZeroD a = true ∧
    isZeroD b = true := by
  simp only [eqD, Bool.and_eq_true, Bool.or_eq_true, beq_iff_eq] at h
  exact h.2

/-- Equality of floats of any width. -/
theorem floatEq_trans {w : Nat} {nan zero : BitVec w → Bool} {a b c : BitVec w}
    (hab : (!nan a && !nan b && (a == b || zero a && zero b)) = true)
    (hbc : (!nan b && !nan c && (b == c || zero b && zero c)) = true) :
    (!nan a && !nan c && (a == c || zero a && zero c)) = true := by
  simp only [Bool.and_eq_true, Bool.or_eq_true, beq_iff_eq] at *
  obtain ⟨⟨hA, -⟩, hAB⟩ := hab
  obtain ⟨⟨-, hC⟩, hBC⟩ := hbc
  refine ⟨⟨hA, hC⟩, ?_⟩
  rcases hAB with rfl | hZeroAB
  · exact hBC
  · rcases hBC with rfl | hZeroBC
    · exact Or.inr hZeroAB
    · exact Or.inr ⟨hZeroAB.1, hZeroBC.2⟩

theorem eqF_trans (a b c : BitVec 32) : eqF a b = true → eqF b c = true → eqF a c = true :=
  floatEq_trans

theorem eqD_trans (a b c : BitVec 64) : eqD a b = true → eqD b c = true → eqD a c = true :=
  floatEq_trans

theorem beq_trans_bits {w : Nat} (a b c : BitVec w) (hab : (a == b) = true)
    (hbc : (b == c) = true) : (a == c) = true := by
  rw [beq_iff_eq] at *
  exact hab.trans hbc

variable {m : Method} {b : Builder} {reqs : List Literal}

theorem Tracks.mono (hTracks : Tracks reqs b) {g : Store} (hKeeps : Keeps b.g g) :
    Tracks reqs { b with g } :=
  ⟨hTracks.int.mono hKeeps, hTracks.long.mono hKeeps, hTracks.float.mono hKeeps,
    hTracks.double.mono hKeeps⟩

/-- Only the graph and the tables matter to the account. -/
theorem Tracks.congr {b' : Builder} (hTracks : Tracks reqs b) (hG : b'.g = b.g)
    (hI : b'.constI = b.constI) (hL : b'.constL = b.constL) (hF : b'.constF = b.constF)
    (hD : b'.constD = b.constD) : Tracks reqs b' := by
  refine ⟨?_, ?_, ?_, ?_⟩
  · rw [hG, hI]
    exact hTracks.int
  · rw [hG, hL]
    exact hTracks.long
  · rw [hG, hF]
    exact hTracks.float
  · rw [hG, hD]
    exact hTracks.double

theorem Tracks.supply (hTracks : Tracks reqs b) (l : Literal) :
    Tracks (reqs ++ [l]) (b.supply l).2 := by
  cases l
  case' int v => obtain ⟨hRem, hKeeps⟩ := memoized_remembers (fun _ _ => rfl) hTracks.int v
  case' long v => obtain ⟨hRem, hKeeps⟩ := memoized_remembers (fun _ _ => rfl) hTracks.long v
  case' float v => obtain ⟨hRem, hKeeps⟩ := memoized_remembers (fun _ _ => rfl) hTracks.float v
  case' double v => obtain ⟨hRem, hKeeps⟩ := memoized_remembers (fun _ _ => rfl) hTracks.double v
  all_goals
    refine ⟨?_, ?_, ?_, ?_⟩ <;> simp only [List.filterMap_append, List.filterMap_cons,
      List.filterMap_nil, Literal.int?, Literal.long?, Literal.float?, Literal.double?,
      List.append_nil]
  -- The literals of its kind have one more, the other kinds none.
  any_goals exact hRem
  any_goals exact hTracks.int.mono hKeeps
  any_goals exact hTracks.long.mono hKeeps
  any_goals exact hTracks.float.mono hKeeps
  any_goals exact hTracks.double.mono hKeeps

/-- A load puts the node supplied for its literal into the destination register. -/
theorem lowerConstant_eq {pc : Nat} {ins : Ins} {l : Literal} (hLoad : literalOf m ins = some l) :
    b.lowerConstant m pc ins = (true, (b.supply l).2.setReg m pc ins.dstReg (b.supply l).1) := by
  unfold literalOf at hLoad
  unfold Builder.lowerConstant
  split at hLoad
  case h_1 | h_2 =>
    cases hLoad
    rfl
  case h_3 | h_4 =>
    split at hLoad
    case h_1 c hEntry =>
      split at hLoad
      case isTrue hKind =>
        cases hLoad
        simp only [Builder.cpAt, hEntry, hKind, if_true]
        rfl
      case isFalse => cases hLoad
    case h_2 => cases hLoad
  case h_5 => cases hLoad

/-- An instruction that loads no numeric constant leaves the builder alone or fails. -/
theorem lowerConstant_refused (b : Builder) (pc : Nat) {ins : Ins}
    (hNone : literalOf m ins = none) :
    (b.lowerConstant m pc ins).2 = b ∨ ∃ msg, (b.lowerConstant m pc ins).2 = b.fail pc msg := by
  unfold literalOf at hNone
  unfold Builder.lowerConstant
  split at hNone
  case h_1 | h_2 => cases hNone
  case h_3 | h_4 =>
    right
    split at hNone
    case h_1 c hEntry =>
      split at hNone
      case isTrue => cases hNone
      case isFalse hKind =>
        simp only [Builder.cpAt, hEntry, hKind, if_false]
        exact ⟨_, rfl⟩
    case h_2 hEntry =>
      simp only [Builder.cpAt, hEntry]
      exact ⟨_, rfl⟩
  case h_5 =>
    left
    rfl

theorem Tracks.setReg {pc reg : Nat} {d : NodeId} (hTracks : Tracks reqs b) :
    Tracks reqs (b.setReg m pc reg d) := by
  unfold Builder.setReg
  split
  all_goals exact hTracks.congr rfl rfl rfl rfl rfl

theorem Tracks.act (hTracks : Tracks reqs b) (a : Action) :
    Tracks (reqs ++ (a.request m).toList) (b.act m a) := by
  cases a with
  | load pc ins =>
    cases hLoad : literalOf m ins with
    | some l =>
      simp only [Action.request, Builder.act, hLoad, lowerConstant_eq hLoad, Option.toList_some]
      exact (hTracks.supply l).setReg
    | none =>
      simp only [Action.request, Builder.act, hLoad, Option.toList_none, List.append_nil]
      rcases lowerConstant_refused b pc hLoad with hSame | ⟨msg, hFail⟩
      · rw [hSame]
        exact hTracks
      · rw [hFail]
        exact hTracks.congr rfl rfl rfl rfl rfl
  | constInt v => exact hTracks.supply (.int v)
  | call c =>
    simp only [Action.request, Option.toList_none, List.append_nil]
    exact hTracks.mono (keeps_step b.g c)
  | slots slots =>
    simp only [Action.request, Option.toList_none, List.append_nil]
    exact hTracks.congr rfl rfl rfl rfl rfl

theorem tracks_acts (m : Method) (actions : List Action) :
    Tracks (requests m actions) (Builder.acts m {} actions) := by
  induction actions using List.reverseRecOn with
  | nil =>
    refine ⟨⟨rfl, ?_⟩, ⟨rfl, ?_⟩, ⟨rfl, ?_⟩, ⟨rfl, ?_⟩⟩ <;>
      exact fun e hMem => absurd hMem List.not_mem_nil
  | append_singleton actions a ih =>
    have hReqs : requests m (actions ++ [a]) = requests m actions ++ (a.request m).toList := by
      simp only [requests, List.filterMap_append, List.filterMap_cons, List.filterMap_nil]
      cases a.request m <;> rfl
    have hActs : Builder.acts m {} (actions ++ [a]) = (Builder.acts m {} actions).act m a := by
      simp only [Builder.acts, List.foldl_append, List.foldl_cons, List.foldl_nil]
    rw [hReqs, hActs]
    exact ih.act a

/-! ## What a load is given -/

/-- Among the requests of one type, the first equal one is the first equal one of all. -/
theorem find?_filterMap {α : Type} (f : Literal → Option α) (p : α → Bool)
    (q : Literal → Bool) (hq : ∀ l, q l = (f l).any p) (reqs : List Literal) :
    (reqs.filterMap f).find? p = (reqs.find? q).bind f := by
  have hFun : q = fun l => (f l).any p := funext hq
  rw [List.find?_filterMap, hFun]

/-- The literal the table of a type answers with. -/
def answer (reqs : List Literal) (l : Literal) : Literal :=
  (reqs.find? (·.equals l)).getD l

theorem answer_of_type {α : Type} (f : Literal → Option α) (lit : α → Literal) (p : α → Bool)
    (v : α) (hq : ∀ l, l.equals (lit v) = (f l).any p)
    (hLit : ∀ l x, f l = some x → lit x = l) (reqs : List Literal) :
    lit (((reqs.filterMap f).find? p).getD v) = answer reqs (lit v) := by
  rw [find?_filterMap f p (·.equals (lit v)) hq, answer]
  cases hFound : reqs.find? (·.equals (lit v)) with
  | none => rfl
  | some l =>
    have hEq : (f l).any p = true := by
      rw [← hq]
      simpa using List.find?_some hFound
    cases hF : f l with
    | none =>
      rw [hF] at hEq
      cases hEq
    | some x =>
      rw [Option.bind_some, hF]
      exact hLit l x hF

/-- The node supplied carries the first requested literal that equals the one asked for. -/
theorem Tracks.supply_carries (hTracks : Tracks reqs b) (l : Literal) :
    Carries (b.supply l).2.g (b.supply l).1 (answer reqs l) := by
  cases l with
  | int v =>
    rw [← answer_of_type Literal.int? .int (· == v) v (fun l => by cases l <;> rfl)
      (fun l x h => by cases l <;> cases h; rfl)]
    exact memoized_carries (fun _ _ => rfl) beq_trans_bits hTracks.int v
  | long v =>
    rw [← answer_of_type Literal.long? .long (· == v) v (fun l => by cases l <;> rfl)
      (fun l x h => by cases l <;> cases h; rfl)]
    exact memoized_carries (fun _ _ => rfl) beq_trans_bits hTracks.long v
  | float v =>
    rw [← answer_of_type Literal.float? .float (eqF · v) v (fun l => by cases l <;> rfl)
      (fun l x h => by cases l <;> cases h; rfl)]
    exact memoized_carries (fun _ _ => rfl) eqF_trans hTracks.float v
  | double v =>
    rw [← answer_of_type Literal.double? .double (eqD · v) v (fun l => by cases l <;> rfl)
      (fun l x h => by cases l <;> cases h; rfl)]
    exact memoized_carries (fun _ _ => rfl) eqD_trans hTracks.double v

/-- If a zero is asked for, the first zero of its type asked for before has its sign. -/
def ZeroKeepsSign (reqs : List Literal) (l : Literal) : Prop :=
  l.isZero = true → ∀ z, reqs.find? (fun r => r.isZero && decide (r.kind = l.kind)) = some z → z = l

theorem isNanF_of_isZeroF {v : BitVec 32} (hZero : isZeroF v = true) : isNanF v = false := by
  have hExp : v &&& 0x7F800000 = (v &&& 0x7FFFFFFF) &&& 0x7F800000 := by
    rw [BitVec.and_assoc]
    rfl
  rw [isZeroF, beq_iff_eq] at hZero
  rw [isNanF, hExp, hZero]
  rfl

theorem isNanD_of_isZeroD {v : BitVec 64} (hZero : isZeroD v = true) : isNanD v = false := by
  have hExp : v &&& 0x7FF0000000000000 = (v &&& 0x7FFFFFFFFFFFFFFF) &&& 0x7FF0000000000000 := by
    rw [BitVec.and_assoc]
    rfl
  rw [isZeroD, beq_iff_eq] at hZero
  rw [isNanD, hExp, hZero]
  rfl

theorem floatEq_zero {w : Nat} (nan zero : BitVec w → Bool) {v : BitVec w}
    (hNan : ∀ u, zero u = true → nan u = false) (hZero : zero v = true) (u : BitVec w) :
    (!nan u && !nan v && (u == v || zero u && zero v)) = zero u := by
  cases hU : zero u with
  | true => simp [hU, hZero, hNan u hU, hNan v hZero]
  | false =>
    have hNe : u ≠ v := by
      rintro rfl
      rw [hU] at hZero
      cases hZero
    simp [hU, hNe]

theorem Literal.equals_zero {l : Literal} (hZero : l.isZero = true) (r : Literal) :
    r.equals l = (r.isZero && decide (r.kind = l.kind)) := by
  cases l with
  | int v | long v => cases hZero
  | float v =>
    cases r with
    | float u =>
      simp only [Literal.equals, Literal.isZero, Literal.kind, decide_true, Bool.and_true]
      exact floatEq_zero isNanF isZeroF (fun _ => isNanF_of_isZeroF) hZero u
    | _ => simp [Literal.equals, Literal.kind]
  | double v =>
    cases r with
    | double u =>
      simp only [Literal.equals, Literal.isZero, Literal.kind, decide_true, Bool.and_true]
      exact floatEq_zero isNanD isZeroD (fun _ => isNanD_of_isZeroD) hZero u
    | _ => simp [Literal.equals, Literal.kind]

/-- What equals something else is that very literal. -/
theorem Literal.eq_of_equals {l r : Literal} (hZero : l.isZero = false)
    (hEq : r.equals l = true) : r = l := by
  cases l <;> cases r <;> simp only [Literal.equals, Bool.false_eq_true] at hEq
  case int.int v u => exact congrArg Literal.int (beq_iff_eq.mp hEq)
  case long.long v u => exact congrArg Literal.long (beq_iff_eq.mp hEq)
  case float.float v u =>
    rcases isZeroF_of_eqF hEq with rfl | ⟨-, hV⟩
    · rfl
    · change isZeroF v = false at hZero
      rw [hV] at hZero
      cases hZero
  case double.double v u =>
    rcases isZeroD_of_eqD hEq with rfl | ⟨-, hV⟩
    · rfl
    · change isZeroD v = false at hZero
      rw [hV] at hZero
      cases hZero

theorem answer_eq_iff (reqs : List Literal) (l : Literal) :
    answer reqs l = l ↔ ZeroKeepsSign reqs l := by
  cases hZero : l.isZero with
  | false =>
    have hAnswer : answer reqs l = l := by
      rw [answer]
      cases hFound : reqs.find? (·.equals l) with
      | none => rfl
      | some r => exact Literal.eq_of_equals hZero (by simpa using List.find?_some hFound)
    refine iff_of_true hAnswer fun hTrue => ?_
    rw [hZero] at hTrue
    cases hTrue
  | true =>
    have hFun : (fun r : Literal => r.equals l) =
        fun r => r.isZero && decide (r.kind = l.kind) :=
      funext (Literal.equals_zero hZero)
    rw [answer, ZeroKeepsSign, hFun]
    constructor
    · intro hAnswer _ z hFound
      rw [hFound] at hAnswer
      exact hAnswer
    · intro hKeeps
      cases hFound : reqs.find? fun r => r.isZero && decide (r.kind = l.kind) with
      | none => rfl
      | some z => exact hKeeps hZero z hFound

/-- After any run, the node supplied for a literal carries its bits exactly when the
literal is not a zero whose type had a zero of the other sign first. -/
theorem supply_exact_iff (m : Method) (actions : List Action) (l : Literal) :
    Carries ((Builder.acts m {} actions).supply l).2.g ((Builder.acts m {} actions).supply l).1 l ↔
      ZeroKeepsSign (requests m actions) l := by
  have hCarries := (tracks_acts m actions).supply_carries l
  rw [← answer_eq_iff]
  constructor
  · intro hExact
    exact hCarries.unique hExact
  · intro hAnswer
    rw [hAnswer] at hCarries
    exact hCarries

/-- A method that loads the positive and then the negative zero of `float`. -/
def bothZeros : Method where
  numRegs := 2
  code := [⟨.fconst, 0, 0, 0, 0⟩, ⟨.fconst, 1, 0, 0, 0x80000000⟩]

/-- The second load of `bothZeros` is given the node of the first. -/
theorem supply_negative_zero :
    literalOf bothZeros ⟨.fconst, 1, 0, 0, 0x80000000⟩ = some (.float 0x80000000) ∧
    ¬ Carries
      ((Builder.acts bothZeros {} [.load 0 ⟨.fconst, 0, 0, 0, 0⟩]).supply (.float 0x80000000)).2.g
      ((Builder.acts bothZeros {} [.load 0 ⟨.fconst, 0, 0, 0, 0⟩]).supply (.float 0x80000000)).1
      (.float 0x80000000) := by
  constructor
  · rfl
  · decide

end B2Compiler.Passes.GraphBuilder
