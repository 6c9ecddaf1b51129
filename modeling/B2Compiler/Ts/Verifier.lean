import B2Compiler.Lib.Worklist
import B2Compiler.Ts.Bytecode

/-!
# The TurboScript verifier

What `verifyFunction` checks of a function: its counts, the registers its instructions
name, its handlers, and by a flow analysis which registers may be read where, that jumps
stay on instruction starts and that every instruction is reached.  The sets of defined
registers are joined by union where edges meet, also at the entry of a handler.
-/

namespace B2Compiler.Ts

open Lib

def kMaxUsableRegister : Nat := 253

def kMaxModuleCodeWords : Nat := 2 ^ 26

/-! ## Sets of defined registers -/

/-- Bit `r` stands for register `r`. -/
@[ext] structure DefSet where
  bits : BitVec 256
  deriving DecidableEq, Repr

namespace DefSet

def test (s : DefSet) (r : Nat) : Bool := s.bits.getLsbD r

def set (s : DefSet) (r : Nat) : DefSet := ⟨s.bits ||| BitVec.twoPow 256 r⟩

def join (s t : DefSet) : DefSet := ⟨s.bits ||| t.bits⟩

def empty : DefSet := ⟨0⟩

@[simp] theorem test_join (s t : DefSet) (r : Nat) : (s.join t).test r = (s.test r || t.test r) :=
  BitVec.getLsbD_or

@[simp] theorem test_empty (r : Nat) : empty.test r = false :=
  BitVec.getLsbD_zero

theorem test_set (s : DefSet) {r : Nat} (hr : r < 256) (q : Nat) :
    (s.set r).test q = (s.test q || decide (q = r)) := by
  unfold set test
  rw [BitVec.getLsbD_or, BitVec.getLsbD_twoPow]
  congr 1
  rw [eq_comm, Bool.eq_iff_iff]
  simp only [decide_eq_true_eq, Bool.and_eq_true]
  constructor
  · rintro rfl
    exact ⟨hr, rfl⟩
  · rintro ⟨-, rfl⟩
    rfl

theorem ext_test {s t : DefSet} (h : ∀ r, s.test r = t.test r) : s = t :=
  DefSet.ext (BitVec.eq_of_getLsbD_eq fun r _ => h r)

/-- The order of the analysis: a set with more registers is further along. -/
instance : SemilatticeInf DefSet where
  le s t := ∀ r, t.test r = true → s.test r = true
  lt s t := (∀ r, t.test r = true → s.test r = true) ∧ ¬∀ r, s.test r = true → t.test r = true
  le_refl _ _ h := h
  le_trans _ _ _ h₁ h₂ r h := h₁ r (h₂ r h)
  lt_iff_le_not_ge _ _ := Iff.rfl
  le_antisymm _ _ h₁ h₂ := ext_test fun r => Bool.eq_iff_iff.mpr ⟨h₂ r, h₁ r⟩
  inf := join
  inf_le_left s t r h := by
    rw [test_join, h, Bool.true_or]
  inf_le_right s t r h := by
    rw [test_join, h, Bool.or_true]
  le_inf s t u h₁ h₂ r h := by
    rw [test_join, Bool.or_eq_true] at h
    rcases h with h | h
    · exact h₁ r h
    · exact h₂ r h

/-- The registers below `n`. -/
def below : Nat → DefSet
  | 0 => empty
  | n + 1 => (below n).set n

end DefSet

structure TsDiagnostic where
  file : String := ""
  line : Nat := 0
  message : String := ""
  expected : String := ""
  actual : String := ""
  hint : String := ""
  deriving DecidableEq, Repr

/-- What stays the same while a function is verified. -/
structure Verification where
  file : String
  module : Module
  fn : Function

namespace Verification

variable (u : Verification)

def verr (pc : Nat) (msg : String) (expected : String := "") (actual : String := "")
    (hint : String := "") : TsDiagnostic where
  file := u.file
  line := u.module.functionLine.getD u.fn.index 0
  message := "fn@" ++ toString u.fn.index ++ " pc " ++ toString pc ++ ": " ++ msg
  expected := expected
  actual := actual
  hint := hint

/-! ## Static checks -/

/-- The complaint about the counts of the function and its code as a whole. -/
def headError : Option TsDiagnostic :=
  let fn := u.fn
  if fn.registerCount < 1 ∨ kMaxUsableRegister + 1 < fn.registerCount then
    some (u.verr 0 "register count out of range" "1..254" (toString fn.registerCount))
  else if fn.registerCount < fn.paramCount then
    some (u.verr 0 "paramCount exceeds registerCount" "params <= regs"
      (toString fn.paramCount ++ " > " ++ toString fn.registerCount))
  else if fn.code = [] then some (u.verr 0 "function has no code")
  else if kMaxModuleCodeWords < fn.code.length then
    some (u.verr 0 "function code exceeds size budget")
  else if (computeStarts fn).2 = false then
    some (u.verr 0 ("trailing truncated instruction (code length is not a sum of opcode " ++
      "widths)"))
  else none

/-- The complaint about one register an instruction names; `verb` and `noun` are the words
of the two messages. -/
def registerError (pc : Nat) (verb noun : String) (r : Nat) : Option TsDiagnostic :=
  if kMaxUsableRegister < r then
    some (u.verr pc (verb ++ " reserved register r254/r255") "r0..r253" ("r" ++ toString r))
  else if u.fn.registerCount ≤ r then
    some (u.verr pc (noun ++ " register exceeds registerCount")
      ("< " ++ toString u.fn.registerCount) ("r" ++ toString r))
  else none

/-- The complaint about the operands of a call. -/
def callError (pc : Nat) (op : Opcode) (o : Operands) : Option TsDiagnostic :=
  ([o.a, o.b, o.d, o.e].findSome? fun r =>
    if u.fn.registerCount ≤ r then
      some (u.verr pc ((opcodeInfo op).name ++ " register exceeds registerCount")
        ("< " ++ toString u.fn.registerCount) ("r" ++ toString r))
    else none).or
    (if u.fn.registerCount < o.b + o.c then
      some (u.verr pc "argument window exceeds registerCount" "argsBase + argc <= regs"
        (toString o.b ++ " + " ++ toString o.c))
    else none)

/-- The complaint about the operands of the instruction at `pc`. -/
def operandError (pc : Nat) : Option TsDiagnostic :=
  match u.fn.opAt pc with
  | none =>
    some (u.verr pc "undefined opcode byte" "a TSBC v0.1 opcode"
      (toString (byteAt (u.fn.wordAt pc) 0)))
  | some op =>
    let o := u.fn.operandsAt op pc
    if op.format = .w2Call then u.callError pc op o
    else
      ((opcodeInfo op).reads.findSome? fun f =>
        u.registerError pc "read of" "read" (o.get f)).or
        ((opcodeInfo op).writes.findSome? fun f =>
          u.registerError pc "write to" "write" (o.get f))

def handlerError (h : Handler) : Option TsDiagnostic :=
  let fn := u.fn
  if h.endPc ≤ h.startPc ∨ fn.code.length < h.endPc ∨ isStart fn h.startPc = false ∨
      (h.endPc < fn.code.length ∧ isStart fn h.endPc = false) then
    some (u.verr h.startPc "handler range invalid or misaligned"
      "[startPc, endPc) on instruction starts"
      ("[" ++ toString h.startPc ++ ", " ++ toString h.endPc ++ ")"))
  else if fn.code.length ≤ h.handlerPc ∨ isStart fn h.handlerPc = false then
    some (u.verr h.handlerPc "handlerPc is not an instruction start")
  else if kMaxUsableRegister < h.catchReg ∨ fn.registerCount ≤ h.catchReg then
    some (u.verr h.handlerPc "catchReg exceeds registerCount")
  else none

/-- The starts of the instructions, in order. -/
def startPcs : List Nat := (List.range u.fn.code.length).filter (isStart u.fn)

def staticError : Option TsDiagnostic :=
  (u.headError.or (u.startPcs.findSome? u.operandError)).or (u.fn.handlers.findSome? u.handlerError)

end Verification

/-! ## What an instruction does to registers and control -/

/-- The registers an instruction reads; a call reads its argument window, and only a
method call its receiver. -/
def readsOf (op : Opcode) (o : Operands) : List Nat :=
  if op.format = .w2Call then
    o.a :: ((if op = .callMethod then [o.d] else []) ++ List.range' o.b o.c)
  else (opcodeInfo op).reads.map o.get

def writesOf (op : Opcode) (o : Operands) : List Nat :=
  if op.format = .w2Call then [o.e] else (opcodeInfo op).writes.map o.get

/-- The signed distance of a jump. -/
def jumpOffset (op : Opcode) (o : Operands) : Int :=
  match op.format with
  | .w2BR => if 2 ^ 23 ≤ o.imm24 then (o.imm24 : Int) - 2 ^ 24 else o.imm24
  | .w1J => (BitVec.ofNat 16 (o.a + o.b * 2 ^ 8)).toInt
  | _ => (BitVec.ofNat 8 o.b).toInt

def jumpTarget (fn : Function) (pc : Nat) (op : Opcode) (o : Operands) : Option Nat :=
  let t := (pc : Int) + jumpOffset op o
  if t < 0 ∨ (fn.code.length : Int) ≤ t ∨ isStart fn t.toNat = false then none else some t.toNat

/-- How control leaves an instruction. -/
inductive Flow where
  | leave | jump | branch | fall
  deriving DecidableEq, Repr

def flowOf : Opcode → Flow
  | .ret | .throw | .rethrow => .leave
  | .jmp | .jmpWide => .jump
  | .jmpTrue | .jmpFalse | .jmpTrueWide | .jmpFalseWide => .branch
  | _ => .fall

namespace Verification

variable (u : Verification)

/-- What a diagnostic calls the read of `r`. -/
def readName (op : Opcode) (o : Operands) (i r : Nat) : String :=
  let role :=
    if op.format ≠ .w2Call ∨ i = 0 then ""
    else if op = .callMethod ∧ i = 1 then " (receiver)"
    else " (call argument)"
  "read of possibly-undefined register r" ++ toString r ++ role ++ " by " ++ (opcodeInfo op).name

/-- The complaint about a register that is read and not defined. -/
def undefinedError (pc : Nat) (op : Opcode) (o : Operands) (st : DefSet) : Option TsDiagnostic :=
  (readsOf op o).zipIdx.findSome? fun (r, i) =>
    if st.test r then none
    else
      some (u.verr pc (readName op o i r) "defined on all incoming paths"
        "undefined on some path" "initialize the register on every path reaching here")

/-- The instructions after the one at `pc`, in the order they are pushed. -/
def successors (pc : Nat) (op : Opcode) (o : Operands) : Except TsDiagnostic (List Nat) :=
  let next := pc + op.width
  match flowOf op with
  | .leave => .ok []
  | .jump =>
    match jumpTarget u.fn pc op o with
    | none => .error (u.verr pc "jump target outside function or misaligned")
    | some t => .ok [t]
  | .branch =>
    match jumpTarget u.fn pc op o with
    | none => .error (u.verr pc "branch target outside function or misaligned")
    | some t =>
      if u.fn.code.length ≤ next then
        .error (u.verr pc "conditional branch falls off the end of the function")
      else .ok [t, next]
  | .fall =>
    if u.fn.code.length ≤ next then
      .error (u.verr pc "execution falls off the end of the function without Return"
        "every path ends in Return" "fallthrough past the last instruction")
    else .ok [next]

/-- What the visit of an instruction pushes: its successors and the set after it. -/
def visit (pc : Nat) (st : DefSet) : Except TsDiagnostic (List Nat × DefSet) :=
  match u.fn.opAt pc with
  | none => .ok ([], st)
  | some op =>
    let o := u.fn.operandsAt op pc
    match u.undefinedError pc op o st with
    | some e => .error e
    | none =>
      match u.successors pc op o with
      | .error e => .error e
      | .ok targets => .ok (targets, (writesOf op o).foldl DefSet.set st)

/-! ## The worklist -/

/-- The states of the instructions and the worklist, and what each handler last got. -/
structure FlowState where
  work : Worklist DefSet
  handlers : List (Option DefSet)
  deriving DecidableEq, Repr

/-- Joins a state into the one at `pc`; places that start no instruction are passed over. -/
def push (f : FlowState) (pc : Nat) (st : DefSet) : FlowState :=
  if isStart u.fn pc then { f with work := f.work.absorb pc st } else f

/-- The union of the states a handler protects, if one of its instructions was reached. -/
def handlerJoin (w : Worklist DefSet) (h : Handler) : Option DefSet :=
  (List.range' h.startPc (h.endPc - h.startPc)).foldl (fun joined pc =>
      match w.inAt pc with
      | none => joined
      | some s => some ((joined.getD .empty).join s)) none

def recomputeHandler (f : FlowState) (hi : Nat) (h : Handler) : FlowState :=
  match handlerJoin f.work h with
  | none => f
  | some joined =>
    let st := joined.set h.catchReg
    if f.handlers.getD hi none = some st then f
    else u.push { f with handlers := f.handlers.set hi (some st) } h.handlerPc st

/-- The handlers that protect `pc`, with their positions. -/
def covering (pc : Nat) : List (Nat × Handler) :=
  (u.fn.handlers.zipIdx.filter fun p => p.1.startPc ≤ pc ∧ pc < p.1.endPc).map fun p =>
    (p.2, p.1)

/-- Visits the instruction the worklist ends with. -/
def flowStep (f : FlowState) (pc : Nat) : Except TsDiagnostic FlowState :=
  let f := { f with work := { f.work with queue := f.work.queue.dropLast } }
  match u.visit pc ((f.work.inAt pc).getD .empty) with
  | .error e => .error e
  | .ok (targets, after) =>
    let f := targets.foldl (fun f t => u.push f t after) f
    .ok ((u.covering pc).foldl (fun f p => u.recomputeHandler f p.1 p.2) f)

def flowLoop : Nat → FlowState → Except TsDiagnostic FlowState
  | 0, f => .ok f
  | fuel + 1, f =>
    match f.work.queue.getLast? with
    | none => .ok f
    | some pc =>
      match u.flowStep f pc with
      | .error e => .error e
      | .ok f => flowLoop fuel f

def flowStart : FlowState :=
  u.push ⟨⟨List.replicate u.fn.code.length none, []⟩, List.replicate u.fn.handlers.length none⟩
    0 (.below u.fn.paramCount)

/-- Each round takes an entry off the worklist, and an entry is put there only with a state
that grew as a number: the states bound the rounds. -/
def flowFuel : Nat := 2 ^ 256 * u.fn.code.length + 1

def flow : Except TsDiagnostic FlowState := u.flowLoop u.flowFuel u.flowStart

/-- The complaint about the first instruction that is not reached. -/
def unreachableError (f : FlowState) : Option TsDiagnostic :=
  u.startPcs.findSome? fun pc =>
    if (f.work.inAt pc).isSome then none
    else
      some (u.verr pc "unreachable instruction" "all instructions reachable from entry"
        ("pc " ++ toString pc ++ " is never executed; remove dead code or make it reachable"))

end Verification

inductive FeedbackKind where
  | property | binary | branch | call | element
  deriving DecidableEq, Repr

def kNoFeedbackSlot : Nat := 0xFFFFFFFF

def feedbackKind (op : Opcode) : FeedbackKind :=
  match op.format with
  | .w2Call => .call
  | .w1BR | .w2BR => .branch
  | _ =>
    match op with
    | .getProperty | .setProperty | .loadGlobal | .storeGlobal => .property
    | .getElement | .setElement => .element
    | _ => .binary

/-- The kinds of the feedback slots in code order, and for each word its slot. -/
structure FeedbackLayout where
  kinds : List FeedbackKind
  slotOfPc : List Nat
  deriving DecidableEq, Repr

def feedbackLayout (u : Verification) : FeedbackLayout :=
  u.startPcs.foldl (fun l pc =>
      match u.fn.opAt pc with
      | some op =>
        if (opcodeInfo op).ic then
          ⟨l.kinds ++ [feedbackKind op], l.slotOfPc.set pc l.kinds.length⟩
        else l
      | none => l)
    ⟨[], List.replicate u.fn.code.length kNoFeedbackSlot⟩

def verifyFunction (u : Verification) : Except TsDiagnostic FeedbackLayout :=
  match u.staticError with
  | some e => .error e
  | none =>
    match u.flow with
    | .error e => .error e
    | .ok f =>
      match u.unreachableError f with
      | some e => .error e
      | none => .ok (feedbackLayout u)

/-- Verifies every function; the layouts are in the order of the functions. -/
def verify (m : Module) (file : String) : Except TsDiagnostic (List FeedbackLayout) :=
  if m.functions = [] then .error { file := file, message := "module has no functions" }
  else if m.functions.length ≤ m.entryIndex then
    .error
      { file := file
        message := "entry function index out of range (expected < " ++
          toString m.functions.length ++ ", got " ++ toString m.entryIndex ++ ")" }
  else m.functions.mapM fun fn => verifyFunction ⟨file, m, fn⟩

end B2Compiler.Ts
