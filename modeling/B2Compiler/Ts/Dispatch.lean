import B2Compiler.Ts.Definedness

/-!
# The dispatch loop stays in range

The loop fetches without bounds checks.  Here it is a step relation on stacks of frames:
what an instruction computes, whether it raises and which closures it calls on the way is
left open, so that every execution is among the runs; which registers and tables it
indexes, and where control goes, is as in the handlers of the source.
-/

namespace B2Compiler.Ts

open List

variable {V : Type}

def handlerRegs : Opcode → List Field
  | .nop | .defineGlobalVar | .jmp | .jmpWide | .rethrow => []
  | .mov | .getPrototype | .add | .sub | .mul | .div | .mod | .pow | .bitAnd | .bitOr | .bitXor
  | .shl | .shr | .uShr | .bigIntAdd | .bigIntSub | .bigIntMul | .bigIntDiv | .bigIntMod | .lt
  | .le | .gt | .ge | .abstractEq | .strictEq | .sameValue | .sameValueZero | .stringConcat
  | .newContext | .loadContext => [.a, .b]
  | .getProperty | .setProperty | .deleteProperty | .hasProperty | .setPrototype | .instanceof
  | .inOp | .getElement | .setElement | .charCodeAt => [.a, .b, .c]
  | .call | .construct => [.a, .b, .e]
  | .callMethod => [.a, .b, .d, .e]
  | .storeContext => [.a, .c]
  | _ => [.a]

/-- The words the handler of an opcode steps over. -/
def handlerWidth : Opcode → Nat
  | .loadConst | .loadGlobal | .storeGlobal | .newClosure | .defineGlobalVar | .getProperty
  | .setProperty | .deleteProperty | .hasProperty | .setPrototype | .instanceof | .inOp
  | .getElement | .setElement | .charCodeAt | .call | .construct | .callMethod | .newContext
  | .loadContext | .storeContext | .jmpTrueWide | .jmpFalseWide => 2
  | _ => 1

/-- The length of the table an opcode indexes with its immediate. -/
def tableSize (m : Module) : Opcode → Option Nat
  | .loadConst => some m.constants.length
  | .newClosure => some m.functions.length
  | .defineGlobalVar | .loadGlobal | .storeGlobal => some m.globalNames.length
  | _ => none

/-- Where the jump at `pc` with the first word `w` goes; program counters are 32 bits wide. -/
def handlerTarget (pc : Nat) (op : Opcode) (w : Word) (o : Operands) : Nat :=
  let off : Int :=
    match op with
    | .jmp => (BitVec.ofNat 16 (w.toNat / 2 ^ 8 % 2 ^ 16)).toInt
    | .jmpWide | .jmpTrueWide | .jmpFalseWide =>
      if 2 ^ 23 ≤ o.imm24 then (o.imm24 : Int) - 2 ^ 24 else o.imm24
    | _ => (BitVec.ofNat 8 o.b).toInt
  (((pc : Int) + off) % 2 ^ 32).toNat

/-- The innermost handler that protects `pc`: the last of those with the latest start. -/
def findHandler (handlers : List Handler) (pc : Nat) : Option Handler :=
  handlers.foldl (fun found h =>
      if h.startPc ≤ pc ∧ pc < h.endPc then
        match found with
        | none => some h
        | some g => if g.startPc ≤ h.startPc then some h else some g
      else found) none

/-! ## Frames and steps -/

/-- An activation; `regs` is its register file. -/
structure Frame (V : Type) where
  fn : Function
  pc : Nat
  regs : List V

/-- The frame of a call: the arguments that have a parameter, then `undefined`. -/
def Frame.enter (undefined : V) (fn : Function) (args : List V) : Frame V where
  fn := fn
  pc := 0
  regs := (range fn.registerCount).map fun i =>
    if i < fn.paramCount then args.getD i undefined else undefined

def Frame.op (fr : Frame V) : Option Opcode := fr.fn.opAt fr.pc

def Frame.operands (fr : Frame V) (op : Opcode) : Operands := fr.fn.operandsAt op fr.pc

def Frame.target (fr : Frame V) (op : Opcode) : Nat :=
  handlerTarget fr.pc op (fr.fn.wordAt fr.pc) (fr.operands op)

/-- One step of the innermost frame.  An instruction may call closures of the module any
number of times before it is done, and may raise. -/
inductive Step (m : Module) (undefined : V) : List (Frame V) → List (Frame V) → Prop
  | next {fr : Frame V} {rest : List (Frame V)} {op : Opcode} {regs : List V} :
      fr.op = some op → flowOf op = .fall → regs.length = fr.regs.length →
      Step m undefined (fr :: rest)
        ({ fr with pc := fr.pc + handlerWidth op, regs := regs } :: rest)
  | jump {fr : Frame V} {rest : List (Frame V)} {op : Opcode} :
      fr.op = some op → flowOf op = .jump ∨ flowOf op = .branch →
      Step m undefined (fr :: rest) ({ fr with pc := fr.target op } :: rest)
  | stay {fr : Frame V} {rest : List (Frame V)} {op : Opcode} :
      fr.op = some op → flowOf op = .branch →
      Step m undefined (fr :: rest) ({ fr with pc := fr.pc + handlerWidth op } :: rest)
  | ret {fr : Frame V} {rest : List (Frame V)} : fr.op = some .ret →
      Step m undefined (fr :: rest) rest
  | call {fr : Frame V} {rest : List (Frame V)} {fn : Function} {args : List V} : fn ∈ m.functions →
      Step m undefined (fr :: rest) (Frame.enter undefined fn args :: fr :: rest)
  | raise {fr : Frame V} {rest : List (Frame V)} {h : Handler} {thrown : V} :
      findHandler fr.fn.handlers fr.pc = some h →
      Step m undefined (fr :: rest)
        ({ fr with pc := h.handlerPc, regs := fr.regs.set h.catchReg thrown } :: rest)
  | unwind {fr : Frame V} {rest : List (Frame V)} :
      findHandler fr.fn.handlers fr.pc = none → Step m undefined (fr :: rest) rest

/-- A run from the entry function. -/
def Reachable (m : Module) (undefined : V) (s : List (Frame V)) : Prop :=
  ∃ fn, m.functions[m.entryIndex]? = some fn ∧
    Relation.ReflTransGen (Step m undefined) [Frame.enter undefined fn []] s

structure InRange (m : Module) (fr : Frame V) : Prop where
  boundary : isStart fr.fn fr.pc = true
  inside : fr.pc < fr.fn.code.length
  fetched : ∃ op, fr.op = some op
  registers : ∀ op, fr.op = some op → ∀ f ∈ handlerRegs op, (fr.operands op).get f < fr.regs.length
  window : ∀ op, fr.op = some op → op.format = .w2Call →
    (fr.operands op).b + (fr.operands op).c ≤ fr.regs.length
  table : ∀ op n, fr.op = some op → tableSize m op = some n → (fr.operands op).imm24 < n

/-- Every instruction of the module that indexes a table has its immediate in the table. -/
def ImmediatesInTables (m : Module) : Prop :=
  ∀ fn ∈ m.functions, ∀ pc, isStart fn pc = true → ∀ op n, fn.opAt pc = some op →
    tableSize m op = some n → (fn.operandsAt op pc).imm24 < n

theorem handlerWidth_eq {op : Opcode} (h : flowOf op = .fall ∨ flowOf op = .branch) :
    handlerWidth op = op.width := by
  revert h
  cases op <;> decide

/-- Every field a handler indexes by has a role the verifier checks. -/
theorem handlerRegs_roles (op : Opcode) :
    if op.format = .w2Call then ∀ f ∈ handlerRegs op, f ∈ [Field.a, .b, .d, .e]
    else ∀ f ∈ handlerRegs op, f ∈ (opcodeInfo op).reads ++ (opcodeInfo op).writes := by
  cases op <;> decide

theorem get_lt_of_registersOk {fn : Function} {op : Opcode} {o : Operands}
    (h : RegistersOk fn op o) {f : Field} (hf : f ∈ handlerRegs op) :
    o.get f < fn.registerCount := by
  have hRoles := handlerRegs_roles op
  unfold RegistersOk at h
  split at hRoles
  · rename_i hCall
    rw [if_pos hCall] at h
    apply h.1
    have hField := hRoles f hf
    simp only [mem_cons, not_mem_nil, or_false] at hField ⊢
    rcases hField with rfl | rfl | rfl | rfl
    · exact Or.inl rfl
    · exact Or.inr (Or.inl rfl)
    · exact Or.inr (Or.inr (Or.inl rfl))
    · exact Or.inr (Or.inr (Or.inr rfl))
  · rename_i hCall
    rw [if_neg hCall] at h
    exact h f (hRoles f hf)

/-- The loop adds the distance the verifier adds. -/
theorem handlerTarget_eq {fn : Function} (hStatic : StaticOk fn) {pc t : Nat} {op : Opcode}
    (hFlow : flowOf op = .jump ∨ flowOf op = .branch)
    (h : jumpTarget fn pc op (fn.operandsAt op pc) = some t) :
    handlerTarget pc op (fn.wordAt pc) (fn.operandsAt op pc) = t := by
  have hSize := hStatic.size
  unfold kMaxModuleCodeWords at hSize
  unfold jumpTarget at h
  dsimp only at h
  split at h
  · cases h
  rename_i hInside
  cases h
  have hShort : (fn.operandsAt .jmp pc).a + (fn.operandsAt .jmp pc).b * 2 ^ 8 =
      (fn.wordAt pc).toNat / 2 ^ 8 % 2 ^ 16 := by
    show (fn.wordAt pc).toNat / 256 ^ 1 % 256 + (fn.wordAt pc).toNat / 256 ^ 2 % 256 * 2 ^ 8 = _
    omega
  have hWrap : ∀ off : Int, ¬(pc : Int) + off < 0 → ¬(fn.code.length : Int) ≤ pc + off →
      ((pc + off) % 2 ^ 32).toNat = ((pc : Int) + off).toNat := by
    intro off hLow hHigh
    rw [Int.emod_eq_of_lt (by omega) (by omega)]
  have hOff := hWrap (jumpOffset op (fn.operandsAt op pc)) (fun h => hInside (Or.inl h))
    (fun h => hInside (Or.inr (Or.inl h)))
  rw [← hOff]
  unfold handlerTarget jumpOffset
  revert hFlow
  cases op <;> intro hFlow <;> first
    | exact absurd hFlow (by decide)
    | rfl
    | (dsimp only; rw [← hShort]; rfl)

/-- A handler the loop finds is one of the function's and protects the place. -/
theorem mem_of_findHandler {handlers : List Handler} {pc : Nat} {h : Handler}
    (hFound : findHandler handlers pc = some h) :
    h ∈ handlers ∧ h.startPc ≤ pc ∧ pc < h.endPc := by
  have hInv : ∀ g, findHandler handlers pc = some g →
      g ∈ handlers ∧ g.startPc ≤ pc ∧ pc < g.endPc := by
    unfold findHandler
    refine foldlRecOn handlers _ (motive := fun found => ∀ g, found = some g →
      g ∈ handlers ∧ g.startPc ≤ pc ∧ pc < g.endPc) (by nofun) ?_
    intro found hOld h' hMem g hg
    split at hg
    · rename_i hRange
      split at hg
      · cases hg
        exact ⟨hMem, hRange⟩
      rename_i g'
      split at hg
      · cases hg
        exact ⟨hMem, hRange⟩
      · cases hg
        exact hOld _ rfl
    · exact hOld g hg
  exact hInv h hFound

/-! ## The invariant -/

/-- A frame of a function of the module at an instruction, with its whole register file. -/
structure Placed (m : Module) (fr : Frame V) : Prop where
  fn : fr.fn ∈ m.functions
  start : isStart fr.fn fr.pc = true
  regs : fr.regs.length = fr.fn.registerCount

theorem placed_enter {m : Module} {fn : Function} (hMem : fn ∈ m.functions)
    (hStatic : StaticOk fn) (undefined : V) (args : List V) :
    Placed m (Frame.enter undefined fn args) := by
  refine ⟨hMem, isStart_zero hStatic.code, ?_⟩
  show ((range fn.registerCount).map _).length = _
  rw [length_map, length_range]
  rfl

/-- One step keeps the frames in place; one case for each kind of step. -/
theorem Step.placed {m : Module} {undefined : V} {s s' : List (Frame V)}
    (hVerified : ∀ fn ∈ m.functions, StaticOk fn ∧ ∃ state, Analysis fn state)
    (hs : ∀ fr ∈ s, Placed m fr) (h : Step m undefined s s') : ∀ fr ∈ s', Placed m fr := by
  have hTop : ∀ {fr fr' : Frame V} {rest : List (Frame V)}, (∀ fr' ∈ fr :: rest, Placed m fr') →
      Placed m fr' → ∀ fr'' ∈ fr' :: rest, Placed m fr'' := by
    intro fr fr' rest hAll hNew fr'' hMem
    rcases mem_cons.mp hMem with rfl | hMem
    · exact hNew
    · exact hAll fr'' (mem_cons_of_mem _ hMem)
  have hNext : ∀ {fr : Frame V} {t : Nat}, Placed m fr → t ∈ fr.fn.nextPcs fr.pc →
      isStart fr.fn t = true := by
    intro fr t hPlaced ht
    obtain ⟨-, state, hState⟩ := hVerified fr.fn hPlaced.fn
    obtain ⟨s, hs⟩ := Option.isSome_iff_exists.mp (hState.reached fr.pc hPlaced.start)
    exact (hState.next fr.pc s hs t ht).1
  cases h with
  | @next fr rest op regs hOp hFlow hLen =>
    have hPlaced := hs fr mem_cons_self
    have hMember : fr.pc + handlerWidth op ∈ fr.fn.nextPcs fr.pc := by
      unfold Frame.op at hOp
      unfold Function.nextPcs
      rw [hOp]
      dsimp only
      rw [hFlow, handlerWidth_eq (Or.inl hFlow)]
      exact mem_singleton.mpr rfl
    have hStart : isStart fr.fn (fr.pc + handlerWidth op) = true := hNext hPlaced hMember
    exact hTop hs ⟨hPlaced.fn, hStart, hLen.trans hPlaced.regs⟩
  | @jump fr rest op hOp hFlow =>
    have hPlaced := hs fr mem_cons_self
    refine hTop hs ⟨hPlaced.fn, ?_, hPlaced.regs⟩
    obtain ⟨hStatic, state, hState⟩ := hVerified fr.fn hPlaced.fn
    obtain ⟨s, hs⟩ := Option.isSome_iff_exists.mp (hState.reached fr.pc hPlaced.start)
    obtain ⟨t, ht⟩ := Option.isSome_iff_exists.mp (hState.jumps fr.pc s hs op hOp hFlow)
    have hTarget : fr.target op = t := handlerTarget_eq hStatic hFlow ht
    show isStart fr.fn (fr.target op) = true
    rw [hTarget]
    exact isStart_jumpTarget ht
  | @stay fr rest op hOp hFlow =>
    have hPlaced := hs fr mem_cons_self
    have hMember : fr.pc + handlerWidth op ∈ fr.fn.nextPcs fr.pc := by
      unfold Frame.op at hOp
      unfold Function.nextPcs
      rw [hOp]
      dsimp only
      rw [hFlow, handlerWidth_eq (Or.inr hFlow)]
      exact mem_append_right _ (mem_singleton.mpr rfl)
    have hStart : isStart fr.fn (fr.pc + handlerWidth op) = true := hNext hPlaced hMember
    exact hTop hs ⟨hPlaced.fn, hStart, hPlaced.regs⟩
  | ret _ => exact fun fr hMem => hs fr (mem_cons_of_mem _ hMem)
  | @call fr rest fn args hMem =>
    intro fr' hMem'
    rcases mem_cons.mp hMem' with rfl | hMem'
    · exact placed_enter hMem (hVerified fn hMem).1 undefined args
    · exact hs fr' hMem'
  | @raise fr rest h thrown hFound =>
    have hPlaced := hs fr mem_cons_self
    obtain ⟨hStatic, -⟩ := hVerified fr.fn hPlaced.fn
    obtain ⟨hMem, -⟩ := mem_of_findHandler hFound
    refine hTop hs ⟨hPlaced.fn, (hStatic.handlers h hMem).target, ?_⟩
    exact length_set.trans hPlaced.regs
  | unwind _ => exact fun fr hMem => hs fr (mem_cons_of_mem _ hMem)

theorem Placed.inRange {m : Module} {fr : Frame V} (h : Placed m fr) (hStatic : StaticOk fr.fn)
    (hImm : ImmediatesInTables m) : InRange m fr := by
  obtain ⟨op, hOp, hRegs⟩ := hStatic.operands fr.pc h.start
  have hSame : ∀ {op'}, fr.op = some op' → op' = op := by
    intro op' hOp'
    unfold Frame.op at hOp'
    rw [hOp] at hOp'
    exact (Option.some.inj hOp').symm
  constructor
  · exact h.start
  · exact lt_of_isStart h.start
  · exact ⟨op, hOp⟩
  · intro op' hOp' f hf
    rw [hSame hOp'] at hf ⊢
    rw [h.regs]
    exact get_lt_of_registersOk hRegs hf
  · intro op' hOp' hCall
    rw [hSame hOp'] at hCall ⊢
    unfold RegistersOk at hRegs
    rw [if_pos hCall] at hRegs
    rw [h.regs]
    exact hRegs.2
  · intro op' n hOp' hTable
    exact hImm fr.fn h.fn fr.pc h.start op' n hOp' hTable

/-- In every run of a module that verifies, all a frame indexes is there, provided the
immediates of the instructions that index tables lie in the tables. -/
theorem dispatch_inRange {m : Module} {file : String} {ls : List FeedbackLayout}
    (h : verify m file = .ok ls) (hImm : ImmediatesInTables m) {undefined : V}
    {s : List (Frame V)} (hs : Reachable m undefined s) : ∀ fr ∈ s, InRange m fr := by
  obtain ⟨-, hFunctions⟩ := verifyFunction_of_verify h
  have hVerified : ∀ fn ∈ m.functions, StaticOk fn ∧ ∃ state, Analysis fn state := by
    intro fn hMem
    obtain ⟨l, hl⟩ := hFunctions fn hMem
    exact Verification.analysis_of_verifyFunction hl
  obtain ⟨fn, hEntry, hRun⟩ := hs
  have hMem := mem_of_getElem? hEntry
  have hPlaced : ∀ fr ∈ s, Placed m fr := by
    induction hRun with
    | refl =>
      intro fr hFr
      rw [mem_singleton.mp hFr]
      exact placed_enter hMem (hVerified fn hMem).1 undefined []
    | tail _ hStep ih => exact hStep.placed hVerified ih
  intro fr hFr
  have hFrame := hPlaced fr hFr
  exact hFrame.inRange (hVerified fr.fn hFrame.fn).1 hImm

/-- `0: LoadConst r0, #0; 2: Return r0`. -/
def loadFirst (constants : List Constant) : Module where
  constants := constants
  functions := [{ registerCount := 1, code := [0x2, 0x0, 0x16] }]

theorem verify_loadFirst_nil : verify (loadFirst []) "" =
    .ok [⟨[], [kNoFeedbackSlot, kNoFeedbackSlot, kNoFeedbackSlot]⟩] := by
  decide +kernel

theorem verify_loadFirst_one : verify (loadFirst [.smi 7]) "" =
    .ok [⟨[], [kNoFeedbackSlot, kNoFeedbackSlot, kNoFeedbackSlot]⟩] := by
  decide +kernel

theorem immediates_loadFirst_one : ImmediatesInTables (loadFirst [.smi 7]) := by
  intro fn hMem pc hStart op n hOp hTable
  rw [mem_singleton.mp hMem] at hStart hOp ⊢
  have hLt := lt_of_isStart hStart
  change pc < 3 at hLt
  interval_cases pc
  · cases hOp
    cases hTable
    decide
  · exact absurd hStart (by decide)
  · cases hOp
    cases hTable

/-- After the load the frame is at the return, still in range. -/
theorem dispatch_inRange_loadFirst : InRange (loadFirst [.smi 7])
      (⟨(loadFirst [.smi 7]).functions.head (by decide), 2, [7]⟩ : Frame Nat) := by
  have hStep : Step (loadFirst [.smi 7]) 0
      [Frame.enter 0 ((loadFirst [.smi 7]).functions.head (by decide)) []]
      [⟨(loadFirst [.smi 7]).functions.head (by decide), 2, [7]⟩] :=
    @Step.next Nat (loadFirst [.smi 7]) 0
      (Frame.enter 0 ((loadFirst [.smi 7]).functions.head (by decide)) []) [] .loadConst [7]
      rfl rfl rfl
  exact dispatch_inRange verify_loadFirst_one immediates_loadFirst_one
    ⟨_, rfl, Relation.ReflTransGen.single hStep⟩ _ (mem_singleton.mpr rfl)

/-- The verifier takes the module although its pool is empty. -/
theorem loadFirst_outOfRange :
    ¬∀ (m : Module) (file : String) (ls : List FeedbackLayout), verify m file = .ok ls →
      ∀ s : List (Frame Nat), Reachable m 0 s → ∀ fr ∈ s, InRange m fr := by
  intro h
  have hStart : Reachable (loadFirst []) 0
      [Frame.enter 0 ((loadFirst []).functions.head (by decide)) []] :=
    ⟨_, rfl, Relation.ReflTransGen.refl⟩
  have hRange := h (loadFirst []) "" _ verify_loadFirst_nil _ hStart _ mem_cons_self
  exact absurd (hRange.table .loadConst 0 rfl rfl) (Nat.not_lt_zero _)

end B2Compiler.Ts
