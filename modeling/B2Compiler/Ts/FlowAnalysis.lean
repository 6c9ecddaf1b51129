import B2Compiler.Ts.Verifier

/-!
# What the flow analysis computes

Paths of the control-flow graph of a function, with exception edges out of every protected
instruction.  When the worklist is empty, the state of an instruction holds exactly the
registers that some path to it defines: every edge was absorbed, and every bit is there
because of a path.
-/

namespace B2Compiler.Ts

open Lib List

/-! ## Paths -/

/-- Edges of the control-flow graph: to an instruction after the one at `pc`, or out of it
to a handler. -/
inductive Edge where
  | step (pc : Nat)
  | raise (pc : Nat) (h : Handler)
  deriving DecidableEq, Repr

namespace Function

variable (fn : Function)

/-- Where control goes after the instruction at `pc` when it does not raise. -/
def nextPcs (pc : Nat) : List Nat :=
  match fn.opAt pc with
  | none => []
  | some op =>
    let o := fn.operandsAt op pc
    match flowOf op with
    | .leave => []
    | .jump => (jumpTarget fn pc op o).toList
    | .branch => (jumpTarget fn pc op o).toList ++ [pc + op.width]
    | .fall => [pc + op.width]

/-- The registers the instruction at `pc` reads. -/
def reads (pc : Nat) : List Nat :=
  match fn.opAt pc with
  | none => []
  | some op => readsOf op (fn.operandsAt op pc)

def writes (pc : Nat) : List Nat :=
  match fn.opAt pc with
  | none => []
  | some op => writesOf op (fn.operandsAt op pc)

/-- If the instruction at `pc` jumps, it jumps to an instruction. -/
def JumpsInside (pc : Nat) : Prop :=
  ∀ op, fn.opAt pc = some op → flowOf op = .jump ∨ flowOf op = .branch →
    (jumpTarget fn pc op (fn.operandsAt op pc)).isSome = true

/-- A path from the first instruction to `pc`, its last edge first. -/
inductive Path : List Edge → Nat → Prop
  | entry : Path [] 0
  | step {es : List Edge} {pc t : Nat} : Path es pc → pc < fn.code.length → t ∈ fn.nextPcs pc →
      Path (.step pc :: es) t
  | raise {es : List Edge} {pc : Nat} {h : Handler} : Path es pc → h ∈ fn.handlers →
      h.startPc ≤ pc → pc < h.endPc → Path (.raise pc h :: es) h.handlerPc

/-- An instruction that is left by an exception writes nothing but the catch register. -/
def edgeDefines : Edge → List Nat
  | .step pc => fn.writes pc
  | .raise _ h => [h.catchReg]

/-- A register is a parameter or defined by an edge of the path. -/
def DefinedAlong (es : List Edge) (r : Nat) : Prop :=
  r < fn.paramCount ∨ ∃ e ∈ es, r ∈ fn.edgeDefines e

/-- Every register an instruction of a path reads is defined before it on the path. -/
def ReadsDefined : Prop :=
  ∀ es pc, fn.Path es pc → ∀ r ∈ fn.reads pc, fn.DefinedAlong es r

/-- What an instruction reads is defined on all paths to it or on none. -/
def PathsAgree : Prop :=
  ∀ es es' pc, fn.Path es pc → fn.Path es' pc → ∀ r ∈ fn.reads pc,
    fn.DefinedAlong es r → fn.DefinedAlong es' r

theorem DefinedAlong.cons {fn : Function} {es : List Edge} {r : Nat} (h : fn.DefinedAlong es r)
    (e : Edge) : fn.DefinedAlong (e :: es) r := by
  rcases h with h | ⟨e', hMem, hDef⟩
  · exact Or.inl h
  · exact Or.inr ⟨e', mem_cons_of_mem e hMem, hDef⟩

theorem definedAlong_head {fn : Function} {e : Edge} {r : Nat} (h : r ∈ fn.edgeDefines e)
    (es : List Edge) : fn.DefinedAlong (e :: es) r :=
  Or.inr ⟨e, mem_cons_self, h⟩

end Function

/-! ## Instruction starts -/

theorem width_pos (op : Opcode) : 0 < op.width := by
  cases op <;> decide

theorem wordWidth_pos (w : Word) : 0 < wordWidth w := by
  unfold wordWidth
  split
  · exact width_pos _
  · exact Nat.one_pos

theorem length_markStarts (skip : Nat) (ws : List Word) :
    (markStarts skip ws).1.length = ws.length := by
  induction ws generalizing skip with
  | nil => cases skip <;> rfl
  | cons w ws ih => cases skip <;> simp [markStarts, ih]

theorem markStarts_skip {skip : Nat} {ws : List Word} (h : skip < ws.length) :
    (markStarts skip ws).1.getD skip false = true := by
  induction ws generalizing skip with
  | nil => exact absurd h (Nat.not_lt_zero _)
  | cons w ws ih =>
    cases skip with
    | zero => rfl
    | succ skip =>
      have hTail := ih (Nat.lt_of_succ_lt_succ h)
      simpa [markStarts] using hTail

/-- The next instruction starts where one ends. -/
theorem markStarts_next {skip i : Nat} {ws : List Word}
    (h : (markStarts skip ws).1.getD i false = true)
    (hLt : i + wordWidth (ws.getD i 0) < ws.length) :
    (markStarts skip ws).1.getD (i + wordWidth (ws.getD i 0)) false = true := by
  induction ws generalizing skip i with
  | nil => exact absurd hLt (Nat.not_lt_zero _)
  | cons w ws ih =>
    cases i with
    | zero =>
      cases skip with
      | zero =>
        have hPos := wordWidth_pos w
        have hSkip : (markStarts (wordWidth w - 1) ws).1.getD (wordWidth w - 1) false =
            true := by
          apply markStarts_skip
          simp only [getD_cons_zero, length_cons] at hLt
          omega
        obtain ⟨k, hk⟩ : ∃ k, wordWidth w = k + 1 := ⟨wordWidth w - 1, by omega⟩
        rw [hk] at hSkip
        simpa [markStarts, hk] using hSkip
      | succ skip => simp [markStarts] at h
    | succ i =>
      have hLt' : i + wordWidth (ws.getD i 0) < ws.length := by
        simp only [getD_cons_succ, length_cons] at hLt
        omega
      have hIndex : i + 1 + wordWidth (ws.getD i 0) = i + wordWidth (ws.getD i 0) + 1 := by
        omega
      cases skip with
      | zero =>
        have hMark : (markStarts (wordWidth w - 1) ws).1.getD i false = true := by
          simpa [markStarts] using h
        rw [getD_cons_succ, hIndex, markStarts, getD_cons_succ]
        exact ih hMark hLt'
      | succ skip =>
        have hMark : (markStarts skip ws).1.getD i false = true := by
          simpa [markStarts] using h
        rw [getD_cons_succ, hIndex, markStarts, getD_cons_succ]
        exact ih hMark hLt'

section Starts

variable {fn : Function} {pc : Nat}

theorem lt_of_isStart (h : isStart fn pc = true) : pc < fn.code.length := by
  by_contra hGe
  unfold isStart computeStarts at h
  rw [getD_eq_getElem?_getD, getElem?_eq_none (by rw [length_markStarts]; omega)] at h
  cases h

theorem isStart_next {op : Opcode} (h : isStart fn pc = true) (hOp : fn.opAt pc = some op)
    (hLt : pc + op.width < fn.code.length) : isStart fn (pc + op.width) = true := by
  have hWidth : wordWidth (fn.code.getD pc 0) = op.width := by
    unfold Function.opAt Function.wordAt at hOp
    unfold wordWidth
    rw [hOp]
  rw [← hWidth] at hLt ⊢
  exact markStarts_next h hLt

theorem isStart_zero (h : fn.code ≠ []) : isStart fn 0 = true := by
  apply markStarts_skip
  exact length_pos_of_ne_nil h

theorem isStart_jumpTarget {op : Opcode} {o : Operands} {t : Nat}
    (h : jumpTarget fn pc op o = some t) : isStart fn t = true := by
  unfold jumpTarget at h
  dsimp only at h
  split at h
  · cases h
  · rename_i hOk
    cases h
    simpa using fun hFalse => hOk (Or.inr (Or.inr hFalse))

end Starts

/-! ## What the static checks establish -/

/-- The registers of an instruction lie in the register file, for a call with its argument
window. -/
def RegistersOk (fn : Function) (op : Opcode) (o : Operands) : Prop :=
  if op.format = .w2Call then
    (∀ r ∈ [o.a, o.b, o.d, o.e], r < fn.registerCount) ∧ o.b + o.c ≤ fn.registerCount
  else ∀ f ∈ (opcodeInfo op).reads ++ (opcodeInfo op).writes, o.get f < fn.registerCount

structure HandlerOk (fn : Function) (h : Handler) : Prop where
  nonempty : h.startPc < h.endPc
  inside : h.endPc ≤ fn.code.length
  target : isStart fn h.handlerPc = true
  catchReg : h.catchReg < fn.registerCount

structure StaticOk (fn : Function) : Prop where
  registers : fn.registerCount ≤ kMaxUsableRegister + 1
  params : fn.paramCount ≤ fn.registerCount
  code : fn.code ≠ []
  size : fn.code.length ≤ kMaxModuleCodeWords
  operands : ∀ pc, isStart fn pc = true →
    ∃ op, fn.opAt pc = some op ∧ RegistersOk fn op (fn.operandsAt op pc)
  handlers : ∀ h ∈ fn.handlers, HandlerOk fn h

namespace Verification

variable {u : Verification}

theorem mem_startPcs {pc : Nat} : pc ∈ u.startPcs ↔ isStart u.fn pc = true := by
  unfold startPcs
  rw [mem_filter, mem_range]
  exact ⟨fun h => h.2, fun h => ⟨lt_of_isStart h, h⟩⟩

theorem lt_of_registerError {pc r : Nat} {verb noun : String}
    (h : u.registerError pc verb noun r = none) : r < u.fn.registerCount := by
  unfold registerError at h
  split at h
  · cases h
  · split at h
    · cases h
    · omega

theorem registersOk_of_operandError {pc : Nat} (h : u.operandError pc = none) :
    ∃ op, u.fn.opAt pc = some op ∧ RegistersOk u.fn op (u.fn.operandsAt op pc) := by
  unfold operandError at h
  split at h
  · cases h
  rename_i op hOp
  refine ⟨op, hOp, ?_⟩
  unfold RegistersOk
  dsimp only at h
  split at h
  · rename_i hCall
    rw [if_pos hCall]
    unfold callError at h
    obtain ⟨hRegs, hWindow⟩ := Option.or_eq_none_iff.mp h
    rw [findSome?_eq_none_iff] at hRegs
    constructor
    · intro r hMem
      have hr := hRegs r hMem
      split at hr
      · cases hr
      · omega
    · split at hWindow
      · cases hWindow
      · omega
  · rename_i hCall
    rw [if_neg hCall]
    obtain ⟨hReads, hWrites⟩ := Option.or_eq_none_iff.mp h
    rw [findSome?_eq_none_iff] at hReads hWrites
    intro f hMem
    rcases mem_append.mp hMem with hMem | hMem
    · exact lt_of_registerError (hReads f hMem)
    · exact lt_of_registerError (hWrites f hMem)

theorem handlerOk_of_handlerError {h : Handler} (hNone : u.handlerError h = none) :
    HandlerOk u.fn h := by
  unfold handlerError at hNone
  dsimp only at hNone
  split at hNone
  · cases hNone
  rename_i hRange
  split at hNone
  · cases hNone
  rename_i hTarget
  split at hNone
  · cases hNone
  rename_i hReg
  constructor
  · omega
  · omega
  · simpa using fun hFalse => hTarget (Or.inr hFalse)
  · omega

theorem staticOk_of_staticError (h : u.staticError = none) : StaticOk u.fn := by
  unfold staticError at h
  obtain ⟨h, hHandlers⟩ := Option.or_eq_none_iff.mp h
  obtain ⟨hHead, hOperands⟩ := Option.or_eq_none_iff.mp h
  rw [findSome?_eq_none_iff] at hHandlers hOperands
  unfold headError at hHead
  dsimp only at hHead
  split at hHead
  · cases hHead
  rename_i hCount
  split at hHead
  · cases hHead
  rename_i hParams
  split at hHead
  · cases hHead
  rename_i hCode
  split at hHead
  · cases hHead
  rename_i hSize
  constructor
  · omega
  · omega
  · exact hCode
  · omega
  · intro pc hStart
    exact registersOk_of_operandError (hOperands pc (mem_startPcs.mpr hStart))
  · intro h hMem
    exact handlerOk_of_handlerError (hHandlers h hMem)

end Verification

theorem writesOf_lt {fn : Function} {op : Opcode} {o : Operands} (h : RegistersOk fn op o)
    {r : Nat} (hr : r ∈ writesOf op o) : r < fn.registerCount := by
  unfold writesOf at hr
  unfold RegistersOk at h
  split at hr
  · rename_i hCall
    rw [if_pos hCall] at h
    rw [mem_singleton] at hr
    exact h.1 r (by rw [hr]; simp)
  · rename_i hCall
    rw [if_neg hCall] at h
    obtain ⟨f, hMem, rfl⟩ := mem_map.mp hr
    exact h f (mem_append_right _ hMem)

/-! ## The sets as they grow -/

namespace DefSet

theorem mem_of_test_set {s : DefSet} {r q : Nat} (h : (s.set r).test q = true) :
    s.test q = true ∨ q = r := by
  unfold set test at h
  rw [BitVec.getLsbD_or, BitVec.getLsbD_twoPow, Bool.or_eq_true, Bool.and_eq_true,
    decide_eq_true_eq] at h
  exact h.imp_right fun h => (of_decide_eq_true h.2).symm

theorem set_le_set {s t : DefSet} (h : s ≤ t) (r : Nat) : s.set r ≤ t.set r := by
  intro q hq
  unfold set test at hq ⊢
  rw [BitVec.getLsbD_or, Bool.or_eq_true] at hq ⊢
  exact hq.imp_left (h q)

theorem mem_of_test_foldl_set {rs : List Nat} {s : DefSet} {q : Nat}
    (h : (rs.foldl set s).test q = true) : s.test q = true ∨ q ∈ rs := by
  induction rs generalizing s with
  | nil => exact Or.inl h
  | cons r rs ih =>
    rcases ih h with h | h
    · rcases mem_of_test_set h with h | rfl
      · exact Or.inl h
      · exact Or.inr mem_cons_self
    · exact Or.inr (mem_cons_of_mem r h)

theorem test_foldl_set {rs : List Nat} (hLt : ∀ r ∈ rs, r < 256) (s : DefSet) (q : Nat) :
    (rs.foldl set s).test q = (s.test q || decide (q ∈ rs)) := by
  induction rs generalizing s with
  | nil => simp
  | cons r rs ih =>
    rw [foldl_cons, ih (fun r' h => hLt r' (mem_cons_of_mem _ h)), test_set s (hLt r mem_cons_self)]
    by_cases hq : q = r <;> simp [hq]

theorem test_below {n : Nat} (hn : n ≤ 256) (q : Nat) : (below n).test q = decide (q < n) := by
  induction n with
  | zero =>
    rw [below, test_empty]
    simp
  | succ n ih =>
    rw [below, test_set _ (by omega), ih (by omega), Bool.eq_iff_iff]
    simp only [Bool.or_eq_true, decide_eq_true_eq]
    omega

theorem toNat_lt_of_inf_ne {s t : DefSet} (h : s ⊓ t ≠ s) : s.bits.toNat < (s ⊓ t).bits.toNat := by
  have hLe : s.bits.toNat ≤ (s.bits ||| t.bits).toNat := by
    rw [BitVec.toNat_or]
    exact Nat.left_le_or
  have hNe : s.bits.toNat ≠ (s.bits ||| t.bits).toNat := by
    intro hEq
    apply h
    exact DefSet.ext (BitVec.eq_of_toNat_eq hEq.symm)
  exact Nat.lt_of_le_of_ne hLe hNe

end DefSet

/-! ## One push -/

/-- Some path leads to `pc`, and each register of the set is defined along one. -/
def Justified (fn : Function) (pc : Nat) (s : DefSet) : Prop :=
  (∃ es, fn.Path es pc) ∧ ∀ r, s.test r = true → ∃ es, fn.Path es pc ∧ fn.DefinedAlong es r

theorem Justified.inf {fn : Function} {pc : Nat} {s t : DefSet} (hs : Justified fn pc s)
    (ht : Justified fn pc t) : Justified fn pc (s ⊓ t) := by
  refine ⟨hs.1, fun r hr => ?_⟩
  have hOr : s.test r = true ∨ t.test r = true := by
    rw [← Bool.or_eq_true, ← DefSet.test_join]
    exact hr
  rcases hOr with h | h
  · exact hs.2 r h
  · exact ht.2 r h

namespace Verification

variable {u : Verification}

/-- What holds of the states all the time: only instructions have one, each is justified by
paths, what is pending has one, and a handler's instruction has absorbed what the handler
got. -/
structure Sound (u : Verification) (f : FlowState) : Prop where
  length : f.work.ins.length = u.fn.code.length
  starts : ∀ pc s, f.work.inAt pc = some s → isStart u.fn pc = true
  justified : ∀ pc s, f.work.inAt pc = some s → Justified u.fn pc s
  pending : ∀ pc ∈ f.work.queue, (f.work.inAt pc).isSome = true
  entered : ∀ hi h st, u.fn.handlers[hi]? = some h → f.handlers.getD hi none = some st →
    f.work.Absorbs h.handlerPc st

theorem push_eq {f : FlowState} {pc : Nat} (hStart : isStart u.fn pc = true) (st : DefSet) :
    u.push f pc st = { f with work := f.work.absorb pc st } := by
  unfold push
  rw [if_pos hStart]

theorem Sound.push {f : FlowState} (hf : Sound u f) {pc : Nat} {st : DefSet}
    (hStart : isStart u.fn pc = true) (hJust : Justified u.fn pc st) :
    Sound u (u.push f pc st) ∧ Worklist.Descends f.work (u.push f pc st).work ∧
      (u.push f pc st).work.Absorbs pc st := by
  have hLt : pc < f.work.ins.length := by
    rw [hf.length]
    exact lt_of_isStart hStart
  have hDescends := Worklist.absorb_descends st hLt
  rw [push_eq hStart]
  have hAbsorbs := Worklist.absorb_absorbs st hLt
  refine ⟨⟨?_, ?_, ?_, ?_, ?_⟩, hDescends, hAbsorbs⟩
  · exact hDescends.length_eq.trans hf.length
  · intro b s hs
    rcases Worklist.inAt_absorb hLt hs with hOld | ⟨rfl, -⟩
    · exact hf.starts b s hOld
    · exact hStart
  · intro b s hs
    rcases Worklist.inAt_absorb hLt hs with hOld | ⟨rfl, rfl | ⟨s₀, hs₀, rfl⟩⟩
    · exact hf.justified b s hOld
    · exact hJust
    · exact (hf.justified b s₀ hs₀).inf hJust
  · intro b hb
    rcases Worklist.mem_queue_absorb hb with hOld | rfl
    · obtain ⟨s, hs⟩ := Option.isSome_iff_exists.mp (hf.pending b hOld)
      obtain ⟨s', hs', -⟩ := hDescends.below b s hs
      exact Option.isSome_iff_exists.mpr ⟨s', hs'⟩
    · obtain ⟨s, hs, -⟩ := hAbsorbs
      exact Option.isSome_iff_exists.mpr ⟨s, hs⟩
  · intro hi h st' hh hst
    exact (hf.entered hi h st' hh hst).descend hDescends

theorem Sound.pushAll {ts : List Nat} {st : DefSet} (hTs : ∀ t ∈ ts, isStart u.fn t = true ∧
    Justified u.fn t st) {f : FlowState} (hf : Sound u f) :
    Sound u (ts.foldl (fun f t => u.push f t st) f) ∧
      Worklist.Descends f.work (ts.foldl (fun f t => u.push f t st) f).work ∧
      ∀ t ∈ ts, (ts.foldl (fun f t => u.push f t st) f).work.Absorbs t st := by
  induction ts generalizing f with
  | nil => exact ⟨hf, Worklist.Descends.refl _, by nofun⟩
  | cons t ts ih =>
    obtain ⟨hStart, hJust⟩ := hTs t mem_cons_self
    obtain ⟨hPush, hDown, hAbsorbs⟩ := hf.push hStart hJust
    obtain ⟨hRest, hDownRest, hAbsorbsRest⟩ :=
      ih (fun t' h => hTs t' (mem_cons_of_mem _ h)) hPush
    refine ⟨hRest, hDown.trans hDownRest, fun t' hMem => ?_⟩
    rcases mem_cons.mp hMem with rfl | hMem
    · exact hAbsorbs.descend hDownRest
    · exact hAbsorbsRest t' hMem

/-! ## The entry of a handler -/

/-- One instruction of the fold behind `handlerJoin`. -/
def joinStep (w : Worklist DefSet) (joined : Option DefSet) (pc : Nat) : Option DefSet :=
  match w.inAt pc with
  | none => joined
  | some s => some ((joined.getD .empty).join s)

theorem handlerJoin_eq (w : Worklist DefSet) (h : Handler) :
    handlerJoin w h = (range' h.startPc (h.endPc - h.startPc)).foldl (joinStep w) none := rfl

/-- The fold joins the states of its instructions to what it begins with. -/
theorem foldl_joinStep {w : Worklist DefSet} (pcs : List Nat) (joined : Option DefSet) :
    ((pcs.foldl (joinStep w) joined).isSome = true ↔
      joined.isSome = true ∨ ∃ pc ∈ pcs, (w.inAt pc).isSome = true) ∧
    ∀ r, ((pcs.foldl (joinStep w) joined).getD .empty).test r = true ↔
      (joined.getD .empty).test r = true ∨
        ∃ pc ∈ pcs, ∃ s, w.inAt pc = some s ∧ s.test r = true := by
  induction pcs generalizing joined with
  | nil => simp
  | cons pc pcs ih =>
    obtain ⟨hSome, hTest⟩ := ih (joinStep w joined pc)
    refine ⟨hSome.trans ?_, fun r => (hTest r).trans ?_⟩ <;> cases hin : w.inAt pc <;>
      simp [joinStep, hin, DefSet.test_join, or_assoc]

theorem mem_range_iff {h : Handler} {pc : Nat} :
    pc ∈ range' h.startPc (h.endPc - h.startPc) ↔ h.startPc ≤ pc ∧ pc < h.endPc := by
  rw [mem_range'_1]
  omega

theorem Sound.justified_handler {f : FlowState} (hf : Sound u f) {h : Handler}
    (hMem : h ∈ u.fn.handlers) {joined : DefSet} (hJoin : handlerJoin f.work h = some joined) :
    Justified u.fn h.handlerPc (joined.set h.catchReg) := by
  obtain ⟨hSome, hTest⟩ := foldl_joinStep (w := f.work) (range' h.startPc (h.endPc - h.startPc)) none
  rw [← handlerJoin_eq, hJoin] at hSome
  rw [← handlerJoin_eq, hJoin] at hTest
  have hEdge : ∀ {es pc}, u.fn.Path es pc → pc ∈ range' h.startPc (h.endPc - h.startPc) →
      u.fn.Path (.raise pc h :: es) h.handlerPc := by
    intro es pc hPath hRange
    obtain ⟨hLe, hLt⟩ := mem_range_iff.mp hRange
    exact hPath.raise hMem hLe hLt
  obtain ⟨pc, hRange, hIn⟩ := (hSome.mp rfl).resolve_left (by nofun)
  obtain ⟨s, hs⟩ := Option.isSome_iff_exists.mp hIn
  obtain ⟨es, hPath⟩ := (hf.justified pc s hs).1
  refine ⟨⟨_, hEdge hPath hRange⟩, fun r hr => ?_⟩
  rcases DefSet.mem_of_test_set hr with hr | rfl
  · obtain ⟨pc', hRange', s', hs', hr'⟩ := ((hTest r).mp hr).resolve_left (by
      rw [Option.getD_none, DefSet.test_empty]
      nofun)
    obtain ⟨es', hPath', hDef⟩ := (hf.justified pc' s' hs').2 r hr'
    exact ⟨_, hEdge hPath' hRange', hDef.cons _⟩
  · exact ⟨_, hEdge hPath hRange, Function.definedAlong_head (mem_singleton.mpr rfl) es⟩

theorem Sound.recompute {f : FlowState} (hf : Sound u f) (hStatic : StaticOk u.fn) {hi : Nat}
    {h : Handler} (hh : u.fn.handlers[hi]? = some h) :
    Sound u (u.recomputeHandler f hi h) ∧
      Worklist.Descends f.work (u.recomputeHandler f hi h).work ∧
      ∀ pc s, f.work.inAt pc = some s → h.startPc ≤ pc → pc < h.endPc →
        (u.recomputeHandler f hi h).work.Absorbs h.handlerPc (s.set h.catchReg) := by
  have hMem : h ∈ u.fn.handlers := mem_of_getElem? hh
  have hJoined := foldl_joinStep (w := f.work) (range' h.startPc (h.endPc - h.startPc)) none
  rw [← handlerJoin_eq] at hJoined
  unfold recomputeHandler
  cases hJoin : handlerJoin f.work h with
  | none =>
    refine ⟨hf, Worklist.Descends.refl _, fun pc s hs hLe hLt => ?_⟩
    have hSome := hJoined.1.mpr (Or.inr ⟨pc, mem_range_iff.mpr ⟨hLe, hLt⟩, by rw [hs]; rfl⟩)
    rw [hJoin] at hSome
    cases hSome
  | some joined =>
    dsimp only
    -- the set for one protected instruction is absorbed with the union
    have hWeaken : ∀ {w : Worklist DefSet},
        w.Absorbs h.handlerPc (joined.set h.catchReg) → ∀ pc s, f.work.inAt pc = some s →
        h.startPc ≤ pc → pc < h.endPc → w.Absorbs h.handlerPc (s.set h.catchReg) := by
      rintro w ⟨t, ht, hLe⟩ pc s hs hLow hHigh
      have hJoinLe : joined ≤ s := fun r hr => by
        have hTest := (hJoined.2 r).mpr
          (Or.inr ⟨pc, mem_range_iff.mpr ⟨hLow, hHigh⟩, s, hs, hr⟩)
        rwa [hJoin] at hTest
      exact ⟨t, ht, hLe.trans (DefSet.set_le_set hJoinLe h.catchReg)⟩
    split
    · rename_i hSame
      exact ⟨hf, Worklist.Descends.refl _, hWeaken (hf.entered hi h _ hh hSame)⟩
    have hTarget := (hStatic.handlers h hMem).target
    obtain ⟨hPush, hDown, hAbsorbs⟩ := hf.push hTarget (hf.justified_handler hMem hJoin)
    rw [push_eq hTarget] at hPush hDown hAbsorbs
    rw [push_eq hTarget]
    refine ⟨⟨hPush.length, hPush.starts, hPush.justified, hPush.pending, ?_⟩, hDown,
      hWeaken hAbsorbs⟩
    intro hi' h' st' hh' hst'
    by_cases hEq : hi' = hi
    · subst hEq
      rw [hh] at hh'
      cases hh'
      dsimp only at hst'
      rw [getD_eq_getElem?_getD, getElem?_set] at hst'
      split at hst'
      · split at hst'
        · cases hst'
          exact hAbsorbs
        · cases hst'
      · exact absurd rfl ‹_›
    · dsimp only at hst'
      rw [getD_eq_getElem?_getD, getElem?_set_ne (Ne.symm hEq), ← getD_eq_getElem?_getD] at hst'
      exact hPush.entered hi' h' st' hh' hst'

theorem Sound.recomputeAll (hStatic : StaticOk u.fn) {ps : List (Nat × Handler)}
    (hPs : ∀ p ∈ ps, u.fn.handlers[p.1]? = some p.2) {f : FlowState} (hf : Sound u f) :
    Sound u (ps.foldl (fun f p => u.recomputeHandler f p.1 p.2) f) ∧
      Worklist.Descends f.work (ps.foldl (fun f p => u.recomputeHandler f p.1 p.2) f).work ∧
      ∀ p ∈ ps, ∀ pc s, f.work.inAt pc = some s → p.2.startPc ≤ pc → pc < p.2.endPc →
        (ps.foldl (fun f p => u.recomputeHandler f p.1 p.2) f).work.Absorbs p.2.handlerPc
          (s.set p.2.catchReg) := by
  induction ps generalizing f with
  | nil => exact ⟨hf, Worklist.Descends.refl _, by nofun⟩
  | cons p ps ih =>
    obtain ⟨hHead, hDown, hAbsorbs⟩ := hf.recompute hStatic (hPs p mem_cons_self)
    obtain ⟨hRest, hDownRest, hAbsorbsRest⟩ :=
      ih (fun q h => hPs q (mem_cons_of_mem _ h)) hHead
    refine ⟨hRest, hDown.trans hDownRest, fun q hMem pc s hs hLow hHigh => ?_⟩
    rcases mem_cons.mp hMem with rfl | hMem
    · exact (hAbsorbs pc s hs hLow hHigh).descend hDownRest
    · obtain ⟨s', hs', hLe⟩ := hDown.below pc s hs
      obtain ⟨t, ht, hLe'⟩ := hAbsorbsRest q hMem pc s' hs' hLow hHigh
      exact ⟨t, ht, hLe'.trans (DefSet.set_le_set hLe q.2.catchReg)⟩

/-! ## The loop -/

/-- What the last visit of an instruction in its state left behind. -/
def Visited (u : Verification) (w : Worklist DefSet) (pc : Nat) (s : DefSet) : Prop :=
  ∃ targets after, u.visit pc s = .ok (targets, after) ∧ (∀ t ∈ targets, w.Absorbs t after) ∧
    ∀ h ∈ u.fn.handlers, h.startPc ≤ pc → pc < h.endPc → w.Absorbs h.handlerPc (s.set h.catchReg)

theorem Visited.descend {w w' : Worklist DefSet} {pc : Nat} {s : DefSet}
    (h : Visited u w pc s) (hDown : Worklist.Descends w w') : Visited u w' pc s := by
  obtain ⟨targets, after, hVisit, hTargets, hHandlers⟩ := h
  exact ⟨targets, after, hVisit, fun t ht => (hTargets t ht).descend hDown,
    fun h hMem hLow hHigh => (hHandlers h hMem hLow hHigh).descend hDown⟩

/-- The invariant of the loop: every state that is not pending was visited. -/
structure Inv (u : Verification) (f : FlowState) : Prop where
  sound : Sound u f
  settled : ∀ pc s, f.work.inAt pc = some s → pc ∉ f.work.queue → Visited u f.work pc s
  entry : f.work.Absorbs 0 (.below u.fn.paramCount)

theorem successors_ok {pc : Nat} {op : Opcode} {targets : List Nat}
    (hStart : isStart u.fn pc = true) (hOp : u.fn.opAt pc = some op)
    (h : u.successors pc op (u.fn.operandsAt op pc) = .ok targets) :
    targets = u.fn.nextPcs pc ∧ (∀ t ∈ targets, isStart u.fn t = true) ∧
      (flowOf op = .jump ∨ flowOf op = .branch →
        (jumpTarget u.fn pc op (u.fn.operandsAt op pc)).isSome = true) := by
  have hNext : ∀ hLt : pc + op.width < u.fn.code.length,
      isStart u.fn (pc + op.width) = true := isStart_next hStart hOp
  unfold successors at h
  unfold Function.nextPcs
  rw [hOp]
  dsimp only at h ⊢
  cases hFlow : flowOf op with
  | leave =>
    rw [hFlow] at h
    injection h with h
    subst h
    exact ⟨rfl, by nofun, by nofun⟩
  | jump =>
    rw [hFlow] at h
    dsimp only at h ⊢
    split at h
    · cases h
    rename_i t hTarget
    injection h with h
    subst h
    rw [hTarget]
    refine ⟨rfl, fun t' hMem => ?_, fun _ => rfl⟩
    rw [mem_singleton.mp hMem]
    exact isStart_jumpTarget hTarget
  | branch =>
    rw [hFlow] at h
    dsimp only at h ⊢
    split at h
    · cases h
    rename_i t hTarget
    split at h
    · cases h
    rename_i hInside
    injection h with h
    subst h
    rw [hTarget]
    refine ⟨rfl, fun t' hMem => ?_, fun _ => rfl⟩
    rcases mem_cons.mp hMem with rfl | hMem
    · exact isStart_jumpTarget hTarget
    · rw [mem_singleton.mp hMem]
      exact hNext (by omega)
  | fall =>
    rw [hFlow] at h
    dsimp only at h ⊢
    split at h
    · cases h
    rename_i hInside
    injection h with h
    subst h
    refine ⟨rfl, fun t' hMem => ?_, by nofun⟩
    rw [mem_singleton.mp hMem]
    exact hNext (by omega)

/-- The successors of an instruction that passes its visit are the ones the paths know,
and instructions. -/
theorem visit_ok (hStatic : StaticOk u.fn) {pc : Nat} (hStart : isStart u.fn pc = true)
    {s after : DefSet} {targets : List Nat} (h : u.visit pc s = .ok (targets, after)) :
    targets = u.fn.nextPcs pc ∧ (∀ t ∈ targets, isStart u.fn t = true) ∧
      after = (u.fn.writes pc).foldl DefSet.set s ∧ (∀ r ∈ u.fn.reads pc, s.test r = true) ∧
      u.fn.JumpsInside pc := by
  obtain ⟨op, hOp, -⟩ := hStatic.operands pc hStart
  unfold visit at h
  rw [hOp] at h
  dsimp only at h
  split at h
  · cases h
  rename_i hReads
  split at h
  · cases h
  rename_i targets' hSucc
  injection h with h
  injection h with hTargets hAfter
  subst hTargets hAfter
  obtain ⟨hNext, hStarts, hJumps⟩ := successors_ok hStart hOp hSucc
  refine ⟨hNext, hStarts, ?_, ?_, ?_⟩
  · unfold Function.writes
    rw [hOp]
  · intro r hr
    unfold Function.reads at hr
    rw [hOp] at hr
    unfold undefinedError at hReads
    rw [findSome?_eq_none_iff] at hReads
    obtain ⟨i, hi⟩ := mem_iff_getElem?.mp hr
    have hNone := hReads (r, i) (mem_zipIdx_iff_getElem?.mpr hi)
    dsimp only at hNone
    split at hNone
    · assumption
    · cases hNone
  · intro op' hOp'
    rw [hOp] at hOp'
    cases hOp'
    exact hJumps

theorem justified_after {fn : Function} {pc t : Nat} {s : DefSet} (h : Justified fn pc s)
    (hLt : pc < fn.code.length) (ht : t ∈ fn.nextPcs pc) :
    Justified fn t ((fn.writes pc).foldl DefSet.set s) := by
  obtain ⟨es, hPath⟩ := h.1
  refine ⟨⟨_, hPath.step hLt ht⟩, fun r hr => ?_⟩
  rcases DefSet.mem_of_test_foldl_set hr with hr | hr
  · obtain ⟨es', hPath', hDef⟩ := h.2 r hr
    exact ⟨_, hPath'.step hLt ht, hDef.cons _⟩
  · exact ⟨_, hPath.step hLt ht, Function.definedAlong_head hr es⟩

theorem mem_covering {pc hi : Nat} {h : Handler} : (hi, h) ∈ u.covering pc ↔
      u.fn.handlers[hi]? = some h ∧ h.startPc ≤ pc ∧ pc < h.endPc := by
  unfold covering
  simp only [mem_map, mem_filter, decide_eq_true_eq, Prod.mk.injEq, Prod.exists]
  constructor
  · rintro ⟨h', hi', ⟨hMem, hRange⟩, rfl, rfl⟩
    exact ⟨mem_zipIdx_iff_getElem?.mp hMem, hRange⟩
  · rintro ⟨hh, hRange⟩
    exact ⟨h, hi, ⟨mem_zipIdx_iff_getElem?.mpr hh, hRange⟩, rfl, rfl⟩

theorem Inv.step (hStatic : StaticOk u.fn) {f f' : FlowState} {pc : Nat} (hf : Inv u f)
    (hLast : f.work.queue.getLast? = some pc) (h : u.flowStep f pc = .ok f') : Inv u f' := by
  have hQueue : f.work.queue = f.work.queue.dropLast ++ [pc] := by
    rw [dropLast_append_getLast?]
    exact hLast
  obtain ⟨s, hs⟩ := Option.isSome_iff_exists.mp (hf.sound.pending pc (by rw [hQueue]; simp))
  unfold flowStep at h
  have hIn : (Worklist.mk f.work.ins f.work.queue.dropLast).inAt pc = some s := hs
  dsimp only at h
  rw [hIn, Option.getD_some] at h
  split at h
  · cases h
  rename_i targets after hVisit
  injection h with h
  subst h
  have hStart := hf.sound.starts pc s hs
  obtain ⟨hTargets, hStarts, rfl, -⟩ := visit_ok hStatic hStart hVisit
  have hPopped : Sound u { f with work := { f.work with queue := f.work.queue.dropLast } } :=
    ⟨hf.sound.length, hf.sound.starts, hf.sound.justified,
      fun b hb => hf.sound.pending b (mem_of_mem_dropLast hb), hf.sound.entered⟩
  have hJust := hf.sound.justified pc s hs
  have hTargetsOk : ∀ t ∈ targets, isStart u.fn t = true ∧
      Justified u.fn t ((u.fn.writes pc).foldl DefSet.set s) := fun t ht =>
    ⟨hStarts t ht, justified_after hJust (lt_of_isStart hStart) (hTargets ▸ ht)⟩
  have hCovering : ∀ p ∈ u.covering pc, u.fn.handlers[p.1]? = some p.2 :=
    fun p hp => (mem_covering.mp hp).1
  obtain ⟨hPush, hDown, hAbsorbs⟩ := Sound.pushAll hTargetsOk hPopped
  obtain ⟨hRec, hDownRec, hAbsorbsRec⟩ := Sound.recomputeAll hStatic hCovering hPush
  have hDownAll := hDown.trans hDownRec
  have hEntry : Worklist.Absorbs { f.work with queue := f.work.queue.dropLast } 0
      (.below u.fn.paramCount) := hf.entry
  refine ⟨hRec, ?_, hEntry.descend hDownAll⟩
  intro b t ht hb
  obtain ⟨hb₁, hin₁⟩ := hDownRec.settled b hb
  obtain ⟨hb₀, hin₀⟩ := hDown.settled b hb₁
  rw [hin₁] at ht
  by_cases hEq : b = pc
  · -- the popped instruction kept its state, so this visit is its last one
    subst hEq
    have hSame : s = t := by
      rw [hin₀, hIn] at ht
      exact Option.some.inj ht
    subst hSame
    refine ⟨targets, _, hVisit, fun t' hMem => (hAbsorbs t' hMem).descend hDownRec, ?_⟩
    intro h hMem hLow hHigh
    obtain ⟨hi, hh⟩ := mem_iff_getElem?.mp hMem
    exact hAbsorbsRec (hi, h) (mem_covering.mpr ⟨hh, hLow, hHigh⟩) b s ht hLow hHigh
  · have hOld : b ∉ f.work.queue := by
      rw [hQueue, mem_append, mem_singleton]
      exact fun h => h.elim hb₀ hEq
    rw [hin₀] at ht
    have hVisited : Visited u
        { f.work with queue := f.work.queue.dropLast } b t := hf.settled b t ht hOld
    exact hVisited.descend hDownAll

/-! ## The rounds of the loop -/

/-- What is left to grow of a state. -/
def weight : Option DefSet → Nat
  | none => 2 ^ 256
  | some s => 2 ^ 256 - 1 - s.bits.toNat

theorem weight_some_lt (s : DefSet) : weight (some s) < weight none := by
  show 2 ^ 256 - 1 - s.bits.toNat < 2 ^ 256
  omega

theorem weight_inf_lt {s t : DefSet} (h : s ⊓ t ≠ s) : weight (some (s ⊓ t)) < weight (some s) := by
  have hLt := DefSet.toNat_lt_of_inf_ne h
  have hBound := (s ⊓ t).bits.isLt
  show 2 ^ 256 - 1 - (s ⊓ t).bits.toNat < 2 ^ 256 - 1 - s.bits.toNat
  omega

/-- A table of the right length, and no more left to grow than `n`. -/
def Bounded (u : Verification) (n : Nat) (f : FlowState) : Prop :=
  f.work.ins.length = u.fn.code.length ∧ f.work.potential weight ≤ n

theorem Bounded.push {n : Nat} {f : FlowState} (hf : Bounded u n f) (pc : Nat) (st : DefSet) :
    Bounded u n (u.push f pc st) := by
  by_cases hStart : isStart u.fn pc = true
  · rw [push_eq hStart]
    have hLt : pc < f.work.ins.length := by
      rw [hf.1]
      exact lt_of_isStart hStart
    exact ⟨(Worklist.absorb_descends st hLt).length_eq.trans hf.1,
      (Worklist.potential_absorb_le weight_some_lt (fun _ _ h => weight_inf_lt h) st hLt).trans
        hf.2⟩
  · unfold Verification.push
    rw [if_neg hStart]
    exact hf

theorem Bounded.recompute {n : Nat} {f : FlowState} (hf : Bounded u n f) (hi : Nat)
    (h : Handler) : Bounded u n (u.recomputeHandler f hi h) := by
  unfold recomputeHandler
  split
  · exact hf
  · dsimp only
    split
    · exact hf
    · apply Bounded.push
      exact hf

theorem Bounded.step {n : Nat} {f f' : FlowState} {pc : Nat} (hf : Bounded u (n + 1) f)
    (hLast : f.work.queue.getLast? = some pc) (h : u.flowStep f pc = .ok f') :
    Bounded u n f' := by
  have hQueue : f.work.queue = f.work.queue.dropLast ++ [pc] := by
    rw [dropLast_append_getLast?]
    exact hLast
  have hLen := congrArg length hQueue
  rw [length_append, length_singleton] at hLen
  have hPopped : Bounded u n { f with work := { f.work with queue := f.work.queue.dropLast } } := by
    obtain ⟨hTable, hLe⟩ := hf
    refine ⟨hTable, ?_⟩
    unfold Worklist.potential at hLe ⊢
    dsimp only
    omega
  unfold flowStep at h
  dsimp only at h
  split at h
  · cases h
  rename_i targets after hVisit
  injection h with h
  subst h
  have hPush := foldlRecOn targets (fun f t => u.push f t after) hPopped
    fun f hf t _ => Bounded.push hf t after
  exact foldlRecOn (u.covering pc) (fun f p => u.recomputeHandler f p.1 p.2) hPush
    fun f hf p _ => Bounded.recompute hf p.1 p.2

/-- The loop keeps the invariant and, given the rounds, ends with nothing pending. -/
theorem Inv.loop (hStatic : StaticOk u.fn) {fuel : Nat} {f f' : FlowState} (hf : Inv u f)
    (hBound : Bounded u fuel f) (h : u.flowLoop (fuel + 1) f = .ok f') :
    Inv u f' ∧ f'.work.queue = [] := by
  induction fuel generalizing f with
  | zero =>
    have hEmpty : f.work.queue = [] := by
      have hLe := hBound.2
      unfold Worklist.potential at hLe
      exact length_eq_zero_iff.mp (by omega)
    rw [flowLoop, hEmpty] at h
    cases h
    exact ⟨hf, hEmpty⟩
  | succ fuel ih =>
    rw [flowLoop] at h
    split at h
    · rename_i hNone
      cases h
      exact ⟨hf, getLast?_eq_none_iff.mp hNone⟩
    · rename_i pc hLast
      split at h
      · cases h
      · rename_i f₁ hStep
        exact ih (hf.step hStatic hLast hStep) (hBound.step hLast hStep) h

theorem inv_flowStart (hStatic : StaticOk u.fn) : Inv u u.flowStart := by
  have hStart : isStart u.fn 0 = true := isStart_zero hStatic.code
  have hNone : ∀ pc, (Worklist.mk (replicate u.fn.code.length (none : Option DefSet))
      []).inAt pc = none := by
    intro pc
    unfold Worklist.inAt
    rw [getElem?_replicate]
    split <;> rfl
  have hBlank : Sound u ⟨⟨replicate u.fn.code.length none, []⟩,
      replicate u.fn.handlers.length none⟩ := by
    constructor
    · exact length_replicate
    · intro pc s hs
      rw [hNone] at hs
      cases hs
    · intro pc s hs
      rw [hNone] at hs
      cases hs
    · nofun
    · intro hi h st _ hst
      dsimp only at hst
      rw [getD_eq_getElem?_getD, getElem?_replicate] at hst
      split at hst <;> cases hst
  have hJust : Justified u.fn 0 (.below u.fn.paramCount) := by
    refine ⟨⟨[], .entry⟩, fun r hr => ⟨[], .entry, Or.inl ?_⟩⟩
    have hParams := hStatic.params
    have hRegisters := hStatic.registers
    unfold kMaxUsableRegister at hRegisters
    rw [DefSet.test_below (by omega)] at hr
    exact of_decide_eq_true hr
  obtain ⟨hSound, hDown, hEntry⟩ := hBlank.push hStart hJust
  refine ⟨hSound, ?_, hEntry⟩
  intro pc s hs hNotQueued
  have hOld := (hDown.settled pc hNotQueued).2
  unfold flowStart at hs
  rw [hOld, hNone] at hs
  cases hs

theorem bounded_flowStart : Bounded u (2 ^ 256 * u.fn.code.length) u.flowStart := by
  apply Bounded.push
  refine ⟨length_replicate, ?_⟩
  unfold Worklist.potential
  dsimp only
  rw [map_replicate, sum_replicate, length_nil, Nat.add_zero, Nat.mul_comm]
  exact Nat.le_refl _

theorem inv_flow (hStatic : StaticOk u.fn) {f : FlowState} (h : u.flow = .ok f) :
    Inv u f ∧ f.work.queue = [] := by
  unfold flow flowFuel at h
  exact (inv_flowStart hStatic).loop hStatic bounded_flowStart h

end Verification

/-- A state for every instruction with what the analysis says of it. -/
structure Analysis (fn : Function) (state : Nat → Option DefSet) : Prop where
  entry : ∃ s, state 0 = some s ∧ s ≤ .below fn.paramCount
  justified : ∀ pc s, state pc = some s → Justified fn pc s
  reads : ∀ pc s, state pc = some s → ∀ r ∈ fn.reads pc, s.test r = true
  next : ∀ pc s, state pc = some s → ∀ t ∈ fn.nextPcs pc,
    isStart fn t = true ∧ ∃ s', state t = some s' ∧ s' ≤ (fn.writes pc).foldl DefSet.set s
  jumps : ∀ pc s, state pc = some s → fn.JumpsInside pc
  raise : ∀ pc s, state pc = some s → ∀ h ∈ fn.handlers, h.startPc ≤ pc → pc < h.endPc →
    ∃ s', state h.handlerPc = some s' ∧ s' ≤ s.set h.catchReg
  reached : ∀ pc, isStart fn pc = true → (state pc).isSome = true

namespace Verification

variable {u : Verification}

/-- The stages of a verification that succeeds. -/
theorem verifyFunction_stages {l : FeedbackLayout} (h : verifyFunction u = .ok l) :
    u.staticError = none ∧ ∃ f, u.flow = .ok f ∧ u.unreachableError f = none := by
  unfold verifyFunction at h
  generalize u.flow = flow at h ⊢
  split at h
  · cases h
  rename_i hNone
  split at h
  · cases h
  · rename_i f
    split at h
    · cases h
    · rename_i hReached
      exact ⟨hNone, f, rfl, hReached⟩

theorem analysis_of_verifyFunction {l : FeedbackLayout} (h : verifyFunction u = .ok l) :
    StaticOk u.fn ∧ ∃ state, Analysis u.fn state := by
  obtain ⟨hNone, f, hFlow, hReached⟩ := verifyFunction_stages h
  have hStatic := staticOk_of_staticError hNone
  obtain ⟨hInv, hEmpty⟩ := inv_flow hStatic hFlow
  have hVisited : ∀ pc s, f.work.inAt pc = some s → Visited u f.work pc s := by
    intro pc s hs
    apply hInv.settled pc s hs
    rw [hEmpty]
    exact not_mem_nil
  refine ⟨hStatic, f.work.inAt, hInv.entry, hInv.sound.justified, ?_, ?_, ?_, ?_, ?_⟩
  · intro pc s hs
    obtain ⟨targets, after, hVisit, -, -⟩ := hVisited pc s hs
    exact (visit_ok hStatic (hInv.sound.starts pc s hs) hVisit).2.2.2.1
  · intro pc s hs t ht
    obtain ⟨targets, after, hVisit, hTargets, -⟩ := hVisited pc s hs
    obtain ⟨rfl, hStarts, rfl, -⟩ := visit_ok hStatic (hInv.sound.starts pc s hs) hVisit
    exact ⟨hStarts t ht, hTargets t ht⟩
  · intro pc s hs
    obtain ⟨targets, after, hVisit, -, -⟩ := hVisited pc s hs
    exact (visit_ok hStatic (hInv.sound.starts pc s hs) hVisit).2.2.2.2
  · intro pc s hs
    obtain ⟨-, -, -, -, hHandlers⟩ := hVisited pc s hs
    exact hHandlers
  · intro pc hStart
    unfold unreachableError at hReached
    rw [findSome?_eq_none_iff] at hReached
    have hPc := hReached pc (mem_startPcs.mpr hStart)
    split at hPc
    · assumption
    · cases hPc

end Verification

end B2Compiler.Ts
