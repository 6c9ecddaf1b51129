import B2Compiler.Rbc.MethodBuilder

/-!
# What the callers of the method builder asked for

A ledger is kept beside the builder: which instructions were emitted with which labels, which
constants were asked for and what index was handed out, and where labels were bound.  Every
run of calls keeps the two in step, whatever the order of the calls.
-/

namespace B2Compiler.Rbc.RbcBuilder

open List

/-! ## Calls and the ledger -/

inductive Call where
  | setRegs (n : BitVec 32)
  | setLocals (n : BitVec 32)
  | newReg
  | constInt (v : BitVec 32)
  | constLong (v : BitVec 64)
  | constFloat (v : BitVec 32)
  | constDouble (v : BitVec 64)
  | constString (v : String)
  | constClass (internalName : String)
  | constFieldRef (cls name descriptor : String)
  | constMethodRef (cls name descriptor : String)
  | constSwitch (payload : List (BitVec 32))
  | emit (op : Op)
  | emitReg (op : Op) (a : BitVec 16)
  | emitRegImm (op : Op) (dst : BitVec 16) (imm : BitVec 32)
  | emitRegCp (op : Op) (dst : BitVec 16) (cpIdx : BitVec 32)
  | emitRegSlot (op : Op) (dst : BitVec 16) (slot : BitVec 32)
  | emitSlotReg (op : Op) (a : BitVec 16) (slot : BitVec 32)
  | emitRegReg (op : Op) (dst a : BitVec 16)
  | emitRegRegReg (op : Op) (dst a r : BitVec 16)
  | emitRegRegImm (op : Op) (dst a : BitVec 16) (imm : BitVec 32)
  | emitRegRegCp (op : Op) (dst a : BitVec 16) (cpIdx : BitVec 32)
  | emitRegRegRegCp (op : Op) (dst a r : BitVec 16) (cpIdx : BitVec 32)
  | emitCall (op : Op) (dst argBase argCount : BitVec 16) (cpIdx : BitVec 32)
  | emitGuard (op : Op) (a : BitVec 16) (deoptId : BitVec 32)
  | emitTrap (deoptId : BitVec 32)
  | emitBranch (op : Op) (target : Nat)
  | emitRegBranch (op : Op) (a : BitVec 16) (target : Nat)
  | emitRegRegBranch (op : Op) (a r : BitVec 16) (target : Nat)
  | emitSwitch (op : Op) (a : BitVec 16) (payload : List (BitVec 32)) (targets : List Nat)
  | newLabel
  | bind (l : Nat)
  | addHandler (start stop handler catchTypeCp : BitVec 32)
  | handlerLabel
  | finish (out : Method)

/-- An instruction emitted with labels: a branch, or a switch and the index of its table. -/
inductive Site where
  | branch (pc : Nat) (labels : List Nat)
  | switch (pc table : Nat) (op : Op) (payload : List (BitVec 32)) (targets : List Nat)
  deriving DecidableEq, Repr

namespace Site

def pc : Site → Nat
  | .branch pc _ => pc
  | .switch pc _ _ _ _ => pc

def table? : Site → Option Nat
  | .branch _ _ => none
  | .switch _ table _ _ _ => some table

def labels : Site → List Nat
  | .branch _ labels => labels
  | .switch _ _ _ _ targets => targets

/-- The patches it leaves behind. -/
def patches : Site → List Patch
  | .branch pc labels => labels.map fun l => ⟨pc, l, none⟩
  | .switch pc _ op payload targets =>
    (switchPairs payload targets).zipIdx.map fun p => ⟨pc, p.1.2, some (targetSlot op p.2)⟩

/-- No misuse: as many targets as matches, no match twice, and for a table switch a range. -/
def Proper : Site → Prop
  | .branch _ _ => True
  | .switch _ _ op payload targets =>
    payload.length = targets.length ∧ firstDuplicate (switchPairs payload targets) = none ∧
      (op = .tableswitch → contiguous (switchPairs payload targets) = true)

end Site

/-- The ledger. -/
structure Ledger where
  sites : List Site := []
  requests : List (Nat × Const) := []
  /-- The requests answered with the table of a switch. -/
  borrowed : List (Const × Site) := []
  binds : List (Nat × Nat) := []
  handlers : List ExceptionHandler := []

namespace Ledger

/-- Where the label was bound. -/
def positions (L : Ledger) (l : Nat) : List Nat := (L.binds.filter (·.1 == l)).map (·.2)

/-- The place of a label that was bound. -/
def place (L : Ledger) (l : Nat) : Nat := (L.positions l).headD 0

/-- The table of a switch with its labels in place. -/
def tableOf (L : Ledger) : Site → List (BitVec 32)
  | .branch _ _ => []
  | .switch pc _ op payload targets =>
    let pairs := switchPairs payload targets
    switchTable op pc (pairs.map (·.1)) (pairs.map fun p => BitVec.ofNat 32 (L.place p.2))

def noteSite (L : Ledger) (s : Site) : Ledger := { L with sites := L.sites ++ [s] }

/-- A request for a constant: the first equal entry of the pool, or a new one. -/
def noteConst (L : Ledger) (b : RbcBuilder) (c : Const) : Ledger :=
  let i := (b.internConst c).2
  { L with
    requests := L.requests ++ [(i, c)]
    borrowed := L.borrowed ++ (L.sites.filter fun s => s.table? == some i).map fun s => (c, s) }

/-- Binding a label that was never handed out is ignored. -/
def noteBind (L : Ledger) (b : RbcBuilder) (l : Nat) : Ledger :=
  if l < b.boundAt.length then { L with binds := L.binds ++ [(l, b.code.length)] } else L

end Ledger

variable (b : RbcBuilder) (L : Ledger)

def step : Call → RbcBuilder × Ledger
  | .setRegs n => (b.setRegs n, L)
  | .setLocals n => (b.setLocals n, L)
  | .newReg => (b.newReg, L)
  | .constInt v => ((b.constInt v).1, L.noteConst b { kind := .int32, i32 := v })
  | .constLong v => ((b.constLong v).1, L.noteConst b { kind := .int64, i64 := v })
  | .constFloat v => ((b.constFloat v).1, L.noteConst b { kind := .float, f32 := v })
  | .constDouble v => ((b.constDouble v).1, L.noteConst b { kind := .double, f64 := v })
  | .constString v => ((b.constString v).1, L.noteConst b { kind := .string, str := v })
  | .constClass n => ((b.constClass n).1, L.noteConst b { kind := .klass, str := n })
  | .constFieldRef cls name d =>
    ((b.constFieldRef cls name d).1,
      L.noteConst b { kind := .fieldRef, str := cls, str2 := name, str3 := d })
  | .constMethodRef cls name d =>
    ((b.constMethodRef cls name d).1,
      L.noteConst b { kind := .methodRef, str := cls, str2 := name, str3 := d })
  | .constSwitch payload => ((b.constSwitch payload).1, L.noteConst b (tableConst payload))
  | .emit op => (b.emit op, L)
  | .emitReg op a => (b.emitReg op a, L)
  | .emitRegImm op dst imm => (b.emitRegImm op dst imm, L)
  | .emitRegCp op dst cpIdx => (b.emitRegCp op dst cpIdx, L)
  | .emitRegSlot op dst slot => (b.emitRegSlot op dst slot, L)
  | .emitSlotReg op a slot => (b.emitSlotReg op a slot, L)
  | .emitRegReg op dst a => (b.emitRegReg op dst a, L)
  | .emitRegRegReg op dst a r => (b.emitRegRegReg op dst a r, L)
  | .emitRegRegImm op dst a imm => (b.emitRegRegImm op dst a imm, L)
  | .emitRegRegCp op dst a cpIdx => (b.emitRegRegCp op dst a cpIdx, L)
  | .emitRegRegRegCp op dst a r cpIdx => (b.emitRegRegRegCp op dst a r cpIdx, L)
  | .emitCall op dst argBase argCount cpIdx => (b.emitCall op dst argBase argCount cpIdx, L)
  | .emitGuard op a deoptId => (b.emitGuard op a deoptId, L)
  | .emitTrap deoptId => (b.emitTrap deoptId, L)
  | .emitBranch op l => (b.emitBranch op l, L.noteSite (.branch b.code.length [l]))
  | .emitRegBranch op a l => (b.emitRegBranch op a l, L.noteSite (.branch b.code.length [l]))
  | .emitRegRegBranch op a r l =>
    (b.emitRegRegBranch op a r l, L.noteSite (.branch b.code.length [l]))
  | .emitSwitch op a payload targets =>
    (b.emitSwitch op a payload targets, L.noteSite
      (if isSwitchOp op then .switch b.code.length b.cp.length op payload targets
        else .branch b.code.length targets))
  | .newLabel => (b.newLabel, L)
  | .bind l => (b.bind l, L.noteBind b l)
  | .addHandler start stop handler catchTypeCp =>
    (b.addHandler start stop handler catchTypeCp,
      { L with handlers := L.handlers ++
        [⟨start.toNat, stop.toNat, handler.toNat, catchTypeCp.toInt⟩] })
  | .handlerLabel => (b.handlerLabel, L)
  | .finish out => ((b.finish out).1, L)

def runFrom : List Call → RbcBuilder × Ledger → RbcBuilder × Ledger
  | [], s => s
  | c :: cs, s => runFrom cs (s.1.step s.2 c)

/-- A sequence of calls on a new builder. -/
def run (name descriptor : String) (flags : BitVec 16) (calls : List Call) : RbcBuilder × Ledger :=
  runFrom calls ({ name := name, descriptor := descriptor, flags := flags }, {})

/-! ## The invariant -/

/-- What the binds of a label make of it. -/
def boundOf : List Nat → Bound
  | [] => .unbound
  | [t] => .at t
  | _ => .doubleBound

/-- The instruction of a site, and its table with some targets or other. -/
def Holds : Site → Prop
  | .branch pc _ => pc < b.code.length
  | .switch pc k op payload targets =>
    isSwitchOp op = true ∧ k < 2 ^ 32 ∧
      (∃ ins, b.code[pc]? = some ins ∧ ins.op = op ∧ ins.imm = BitVec.ofNat 32 k) ∧
      ∃ ts : List (BitVec 32), ts.length = (switchPairs payload targets).length ∧
        b.cp[k]? = some (tableConst
          (switchTable op pc ((switchPairs payload targets).map (·.1)) ts))

/-- A request is served by an equal entry that no patch reaches, or it was answered with the
table of a switch. -/
def Serves (r : Nat × Const) : Prop :=
  (∃ d, b.cp[r.1]? = some d ∧ sameConst d r.2 = true ∧ ∀ s ∈ L.sites, s.table? ≠ some r.1) ∨
    ∃ s ∈ L.sites, s.table? = some r.1 ∧ (r.2, s) ∈ L.borrowed

structure Tracks (b : RbcBuilder) (L : Ledger) : Prop where
  patches : b.patches = L.sites.flatMap Site.patches
  ordered : L.sites.Pairwise fun s s' => s.pc ≠ s'.pc ∧
    ∀ k, s.table? = some k → s'.table? ≠ some k
  holds : ∀ s ∈ L.sites, b.Holds s
  bound : ∀ l x, b.boundAt[l]? = some x → x = boundOf (L.positions l)
  unknown : ∀ l, b.boundAt[l]? = none → L.positions l = []
  serves : ∀ r ∈ L.requests, b.Serves L r
  borrowed : ∀ p ∈ L.borrowed, p.1.kind = .switchTable ∧ p.2 ∈ L.sites ∧
    ∃ k, p.2.table? = some k ∧ (k, p.1) ∈ L.requests
  handlers : b.handlers = L.handlers
  proper : b.pendingError = "" → ∀ s ∈ L.sites, s.Proper

variable {b b' : RbcBuilder} {L : Ledger}

theorem getElem?_append_some {α : Type*} {xs ys : List α} {i : Nat} {x : α}
    (h : xs[i]? = some x) : (xs ++ ys)[i]? = some x := by
  rw [List.getElem?_append_left (List.getElem?_eq_some_iff.mp h).1, h]

theorem sameConst_refl (c : Const) : sameConst c c = true := by
  unfold sameConst
  rcases hKind : c.kind <;> simp [hKind]

theorem sameConst_kind {c d : Const} (h : sameConst d c = true) : c.kind = d.kind := by
  unfold sameConst at h
  by_contra hNe
  rw [if_pos (Ne.symm hNe)] at h
  cases h

/-! ### Code and pool only grow -/

variable {s : Site} {xs : List Ins} {ys : List Const}

theorem Holds.grow (h : b.Holds s) (hCode : b'.code = b.code ++ xs) (hCp : b'.cp = b.cp ++ ys) :
    b'.Holds s := by
  cases s with
  | branch pc labels =>
    have hIn : pc < b.code.length := h
    show pc < b'.code.length
    rw [hCode, length_append]
    omega
  | switch pc k op payload targets =>
    obtain ⟨hOp, hk, ⟨ins, hIns, hFields⟩, ts, hLength, hTable⟩ := h
    refine ⟨hOp, hk, ⟨ins, ?_, hFields⟩, ts, hLength, ?_⟩
    · rw [hCode]
      exact getElem?_append_some hIns
    · rw [hCp]
      exact getElem?_append_some hTable

theorem Holds.pc_lt (h : b.Holds s) : s.pc < b.code.length := by
  cases s with
  | branch pc labels => exact h
  | switch pc k op payload targets =>
    obtain ⟨-, -, ⟨ins, hIns, -⟩, -⟩ := h
    exact (List.getElem?_eq_some_iff.mp hIns).1

theorem Holds.table {k : Nat} (h : b.Holds s) (hTable : s.table? = some k) :
    ∃ ints, b.cp[k]? = some (tableConst ints) := by
  cases s with
  | branch pc labels => cases hTable
  | switch pc k' op payload targets =>
    injection hTable with hEq
    subst hEq
    obtain ⟨-, -, -, ts, -, hEntry⟩ := h
    exact ⟨_, hEntry⟩

theorem Holds.table_lt {k : Nat} (h : b.Holds s) (hTable : s.table? = some k) :
    k < b.cp.length := by
  obtain ⟨ints, hEntry⟩ := h.table hTable
  exact (List.getElem?_eq_some_iff.mp hEntry).1

theorem Serves.grow {r : Nat × Const} (h : b.Serves L r) (hCp : b'.cp = b.cp ++ ys) :
    b'.Serves L r := by
  rcases h with ⟨d, hRead, hSame, hFree⟩ | hBorrowed
  · left
    refine ⟨d, ?_, hSame, hFree⟩
    rw [hCp]
    exact getElem?_append_some hRead
  · exact .inr hBorrowed

/-- A call that adds code or entries and touches nothing else. -/
theorem Tracks.grow (h : Tracks b L) (hCode : b'.code = b.code ++ xs) (hCp : b'.cp = b.cp ++ ys)
    (hPatches : b'.patches = b.patches) (hBound : b'.boundAt = b.boundAt)
    (hHandlers : b'.handlers = b.handlers) (hError : b'.pendingError = b.pendingError) :
    Tracks b' L where
  patches := hPatches.trans h.patches
  ordered := h.ordered
  holds := fun s hs => (h.holds s hs).grow hCode hCp
  bound := by
    rw [hBound]
    exact h.bound
  unknown := by
    rw [hBound]
    exact h.unknown
  serves := fun r hr => (h.serves r hr).grow hCp
  borrowed := h.borrowed
  handlers := hHandlers.trans h.handlers
  proper := by
    rw [hError]
    exact h.proper

theorem Tracks.rawEmit (h : Tracks b L) (i : Ins) : Tracks (b.rawEmit i) L :=
  h.grow rfl (append_nil _).symm rfl rfl rfl rfl

theorem Tracks.resize (h : Tracks b L) (regs locals : BitVec 32) :
    Tracks { b with numRegs := regs, numLocals := locals } L :=
  h.grow (append_nil _).symm (append_nil _).symm rfl rfl rfl rfl

/-! ### Constants -/

/-- The answer to a request: an entry that was there, or one that comes to the end. -/
theorem internConst_spec (b : RbcBuilder) (c : Const) :
    (∃ d, b.cp[(b.internConst c).2]? = some d ∧ sameConst d c = true ∧ (b.internConst c).1 = b) ∨
    ((b.internConst c).2 = b.cp.length ∧ (b.internConst c).1 = { b with cp := b.cp ++ [c] }) := by
  unfold internConst
  rcases hFound : b.cp.findIdx? (fun d => sameConst d c) with _ | i
  · exact .inr ⟨rfl, rfl⟩
  · left
    obtain ⟨hLt, hSame, -⟩ := findIdx?_eq_some_iff_getElem.mp hFound
    exact ⟨b.cp[i], getElem?_eq_getElem hLt, hSame, rfl⟩

theorem Tracks.noteConst (h : Tracks b L) (c : Const) :
    Tracks (b.internConst c).1 (L.noteConst b c) := by
  have hGrown : Tracks (b.internConst c).1 L := by
    rcases internConst_spec b c with ⟨-, -, -, hSame⟩ | ⟨-, hNew⟩
    · rw [hSame]
      exact h
    · rw [hNew]
      exact h.grow (append_nil _).symm rfl rfl rfl rfl rfl
  have hServed : ∀ r, (b.internConst c).1.Serves L r →
      (b.internConst c).1.Serves (L.noteConst b c) r := by
    rintro r (hFree | ⟨s, hs, hTable, hNoted⟩)
    · exact .inl hFree
    · exact .inr ⟨s, hs, hTable, mem_append_left _ hNoted⟩
  have hNew : (b.internConst c).1.Serves (L.noteConst b c) ((b.internConst c).2, c) := by
    by_cases hSite : ∃ s ∈ L.sites, s.table? = some (b.internConst c).2
    · right
      obtain ⟨s, hs, hTable⟩ := hSite
      refine ⟨s, hs, hTable, mem_append_right _ (mem_map.mpr ⟨s, ?_, rfl⟩)⟩
      rw [mem_filter, hTable]
      exact ⟨hs, beq_self_eq_true _⟩
    · left
      have hFree : ∀ s ∈ L.sites, s.table? ≠ some (b.internConst c).2 :=
        fun s hs hTable => hSite ⟨s, hs, hTable⟩
      rcases internConst_spec b c with ⟨d, hRead, hSame, hEq⟩ | ⟨hIndex, hEq⟩
      · exact ⟨d, by rw [hEq]; exact hRead, hSame, hFree⟩
      · refine ⟨c, ?_, sameConst_refl c, hFree⟩
        rw [hEq, hIndex]
        exact getElem?_concat_length
  refine ⟨hGrown.patches, hGrown.ordered, hGrown.holds, hGrown.bound, hGrown.unknown, ?_, ?_,
    hGrown.handlers, hGrown.proper⟩
  · intro r hr
    rcases mem_append.mp hr with hOld | hLast
    · exact hServed r (hGrown.serves r hOld)
    · rw [mem_singleton.mp hLast]
      exact hNew
  · intro p hp
    rcases mem_append.mp hp with hOld | hLast
    · obtain ⟨hKind, hs, k, hTable, hRequest⟩ := h.borrowed p hOld
      exact ⟨hKind, hs, k, hTable, mem_append_left _ hRequest⟩
    obtain ⟨s, hs, rfl⟩ := mem_map.mp hLast
    rw [mem_filter, beq_iff_eq] at hs
    refine ⟨?_, hs.1, _, hs.2, mem_append_right _ (mem_singleton.mpr rfl)⟩
    obtain ⟨ints, hEntry⟩ := (h.holds s hs.1).table hs.2
    rcases internConst_spec b c with ⟨d, hRead, hSame, -⟩ | ⟨hIndex, -⟩
    · rw [hEntry] at hRead
      injection hRead with hRead
      rw [sameConst_kind hSame, ← hRead]
      rfl
    · have hLt := (List.getElem?_eq_some_iff.mp hEntry).1
      omega

/-! ### Sites -/

theorem Tracks.noteSite (h : Tracks b L) (hCode : b'.code = b.code ++ xs) (hCp : b'.cp = b.cp ++ ys)
    (hPatches : b'.patches = b.patches ++ s.patches) (hBound : b'.boundAt = b.boundAt)
    (hHandlers : b'.handlers = b.handlers) (hPc : s.pc = b.code.length)
    (hTable : ∀ k, s.table? = some k → k = b.cp.length) (hHolds : b'.Holds s)
    (hError : b'.pendingError = "" → b.pendingError = "" ∧ s.Proper) :
    Tracks b' (L.noteSite s) where
  patches := by
    rw [hPatches, h.patches]
    simp [Ledger.noteSite]
  ordered := by
    apply pairwise_append.mpr
    refine ⟨h.ordered, pairwise_singleton _ _, ?_⟩
    intro s₁ hs₁ s₂ hs₂
    rw [mem_singleton.mp hs₂, hPc]
    refine ⟨Nat.ne_of_lt (h.holds s₁ hs₁).pc_lt, fun k hk hk' => ?_⟩
    exact Nat.ne_of_lt ((h.holds s₁ hs₁).table_lt hk) (hTable k hk')
  holds := by
    intro s₁ hs₁
    rcases mem_append.mp hs₁ with hOld | hLast
    · exact (h.holds s₁ hOld).grow hCode hCp
    · rw [mem_singleton.mp hLast]
      exact hHolds
  bound := by
    rw [hBound]
    exact h.bound
  unknown := by
    rw [hBound]
    exact h.unknown
  serves := by
    intro r hr
    rcases (h.serves r hr).grow hCp with ⟨d, hRead, hSame, hFree⟩ | ⟨s₁, hs₁, hNoted⟩
    · left
      refine ⟨d, hRead, hSame, fun s₁ hs₁ => ?_⟩
      rcases mem_append.mp hs₁ with hOld | hLast
      · exact hFree s₁ hOld
      rw [mem_singleton.mp hLast]
      intro hk
      -- the entry was there before the table
      have hOld : r.1 < b.cp.length := by
        rcases h.serves r hr with ⟨d, hRead, -⟩ | ⟨s₂, hs₂, hk₂, -⟩
        · exact (List.getElem?_eq_some_iff.mp hRead).1
        · exact (h.holds s₂ hs₂).table_lt hk₂
      exact Nat.ne_of_lt hOld (hTable r.1 hk)
    · exact .inr ⟨s₁, mem_append_left _ hs₁, hNoted⟩
  borrowed := by
    intro p hp
    obtain ⟨hKind, hs, hRequest⟩ := h.borrowed p hp
    exact ⟨hKind, mem_append_left _ hs, hRequest⟩
  handlers := hHandlers.trans h.handlers
  proper := by
    intro hNone s₁ hs₁
    obtain ⟨hOldNone, hProper⟩ := hError hNone
    rcases mem_append.mp hs₁ with hOld | hLast
    · exact h.proper hOldNone s₁ hOld
    · rw [mem_singleton.mp hLast]
      exact hProper

theorem Tracks.emitPatched (h : Tracks b L) (i : Ins) (labels : List Nat) :
    Tracks (b.emitPatched i labels) (L.noteSite (.branch b.code.length labels)) := by
  have hCode : (b.emitPatched i labels).code = b.code ++ [i] := rfl
  have hCp : (b.emitPatched i labels).cp = b.cp ++ [] := (append_nil _).symm
  apply h.noteSite hCode hCp rfl rfl rfl rfl
  · intro k hk
    cases hk
  · show b.code.length < (b.code ++ [i]).length
    rw [length_append, length_singleton]
    omega
  · exact fun hNone => ⟨hNone, trivial⟩

theorem noteError_eq_empty {old : String} {new : Option String}
    (hNew : ∀ message, new = some message → message ≠ "") (h : noteError old new = "") :
    old = "" ∧ new = none := by
  unfold noteError at h
  split at h
  · exact ⟨h, rfl⟩
  · split_ifs at h with hOld
    · exact absurd h (hNew _ rfl)
    · exact absurd h hOld

theorem sizeError_ne (pc : Nat) (payload : List (BitVec 32)) (targets : List Nat)
    (message : String) (h : sizeError pc payload targets = some message) : message ≠ "" := by
  unfold sizeError at h
  split_ifs at h
  injection h with h
  rw [← h]
  simp [String.append_eq_empty_iff]

theorem duplicateError_ne (pc : Nat) (pairs : List (BitVec 32 × Nat)) (message : String)
    (h : duplicateError pc pairs = some message) : message ≠ "" := by
  unfold duplicateError at h
  obtain ⟨m, -, rfl⟩ := Option.map_eq_some_iff.mp h
  simp [String.append_eq_empty_iff]

theorem tableError_ne (op : Op) (pc : Nat) (pairs : List (BitVec 32 × Nat)) (message : String)
    (h : tableError op pc pairs = some message) : message ≠ "" := by
  unfold tableError at h
  split_ifs at h
  all_goals
    injection h with h
    rw [← h]
    simp [String.append_eq_empty_iff]

theorem emitSwitch_proper {op : Op} {a : BitVec 16} {payload : List (BitVec 32)}
    {targets : List Nat} (hOp : isSwitchOp op = true)
    (h : (b.emitSwitch op a payload targets).pendingError = "") :
    b.pendingError = "" ∧ (Site.switch b.code.length b.cp.length op payload targets).Proper := by
  rw [emitSwitch, hOp] at h
  obtain ⟨h₂, hRange⟩ := noteError_eq_empty (tableError_ne _ _ _) h
  obtain ⟨h₁, hDistinct⟩ := noteError_eq_empty (duplicateError_ne _ _) h₂
  have hSize : sizeError b.code.length payload targets = none := by
    rcases hNote : sizeError b.code.length payload targets with _ | message
    · rfl
    · rw [hNote] at h₁
      exact absurd h₁ (sizeError_ne _ _ _ _ hNote)
  rw [hSize] at h₁
  refine ⟨h₁, ?_, ?_, ?_⟩
  · by_contra hNe
    rw [sizeError, if_pos hNe] at hSize
    cases hSize
  · rw [duplicateError, Option.map_eq_none_iff] at hDistinct
    exact hDistinct
  intro hTable
  by_contra hGap
  rw [Bool.not_eq_true] at hGap
  rw [tableError, if_neg (fun hNe => hNe hTable), hGap] at hRange
  split_ifs at hRange with hEmpty hNot
  exact hNot rfl

theorem Tracks.emitSwitch (h : Tracks b L) (op : Op) (a : BitVec 16)
    (payload : List (BitVec 32)) (targets : List Nat) (hPool : b.cp.length < 2 ^ 32) :
    Tracks (b.emitSwitch op a payload targets) (L.noteSite
      (if isSwitchOp op then .switch b.code.length b.cp.length op payload targets
        else .branch b.code.length targets)) := by
  by_cases hOp : isSwitchOp op = true
  · rw [if_pos hOp]
    have hEmit : b.emitSwitch op a payload targets =
        { b with
          code := b.code ++ [⟨op, 0, a, 0, BitVec.ofNat 32 b.cp.length⟩]
          cp := b.cp ++ [tableConst (switchTable op b.code.length
            ((switchPairs payload targets).map (·.1))
            ((switchPairs payload targets).map fun _ => 0))]
          patches := b.patches ++ (Site.switch b.code.length b.cp.length op payload targets).patches
          pendingError := (b.emitSwitch op a payload targets).pendingError } := by
      rw [RbcBuilder.emitSwitch, hOp]
      rfl
    have hProper := @emitSwitch_proper b op a payload targets hOp
    rw [hEmit] at hProper ⊢
    refine h.noteSite rfl rfl rfl rfl rfl rfl ?_ ?_ hProper
    · intro k hk
      injection hk with hk
      exact hk.symm
    · refine ⟨hOp, hPool, ⟨_, getElem?_concat_length, rfl, rfl⟩, _, ?_, getElem?_concat_length⟩
      rw [length_map]
  · rw [Bool.not_eq_true] at hOp
    rw [RbcBuilder.emitSwitch, hOp]
    exact h.emitPatched _ targets

/-! ### Labels and handlers -/

theorem Tracks.newLabel (h : Tracks b L) : Tracks b.newLabel L := by
  have hHolds : ∀ s ∈ L.sites, b.newLabel.Holds s := fun s hs =>
    (h.holds s hs).grow (append_nil _).symm (append_nil _).symm
  refine ⟨h.patches, h.ordered, hHolds, ?_, ?_, h.serves, h.borrowed, h.handlers, h.proper⟩
  · intro l x hRead
    by_cases hOld : l < b.boundAt.length
    · apply h.bound
      rwa [RbcBuilder.newLabel, getElem?_append_left hOld] at hRead
    have hNone := h.unknown l (getElem?_eq_none (Nat.le_of_not_lt hOld))
    rw [RbcBuilder.newLabel, getElem?_append_right (Nat.le_of_not_lt hOld)] at hRead
    rw [hNone]
    rw [getElem?_singleton] at hRead
    split_ifs at hRead
    injection hRead with hRead
    exact hRead.symm
  · intro l hNone
    apply h.unknown
    rw [RbcBuilder.newLabel, getElem?_eq_none_iff, length_append] at hNone
    exact getElem?_eq_none (by omega)

theorem positions_noteBind {l m : Nat} (hKnown : l < b.boundAt.length) :
    (L.noteBind b l).positions m =
      if l = m then L.positions m ++ [b.code.length] else L.positions m := by
  rw [Ledger.noteBind, if_pos hKnown, Ledger.positions, filter_append, map_append]
  by_cases hEq : l = m
  · rw [if_pos hEq]
    simp [Ledger.positions, hEq]
  · rw [if_neg hEq]
    simp [Ledger.positions, hEq]

theorem bind_eq (b : RbcBuilder) (l : Nat) {x : Bound} (hRead : b.boundAt[l]? = some x) : b.bind l =
      { b with
        boundAt :=
          b.boundAt.set l (if x = .unbound then .at b.code.length else .doubleBound) } := by
  rw [RbcBuilder.bind, hRead]
  cases x <;> rfl

theorem boundOf_snoc (ts : List Nat) (t : Nat) :
    boundOf (ts ++ [t]) = if boundOf ts = .unbound then .at t else .doubleBound := by
  rcases ts with _ | ⟨t₁, _ | ⟨t₂, ts⟩⟩ <;> rfl

theorem Tracks.bind (h : Tracks b L) (l : Nat) : Tracks (b.bind l) (L.noteBind b l) := by
  rcases hRead : b.boundAt[l]? with _ | x
  · have hLen := getElem?_eq_none_iff.mp hRead
    rw [RbcBuilder.bind, hRead, Ledger.noteBind, if_neg (Nat.not_lt.mpr hLen)]
    exact h
  have hKnown := (List.getElem?_eq_some_iff.mp hRead).1
  have hNote : L.noteBind b l = { L with binds := L.binds ++ [(l, b.code.length)] } := by
    rw [Ledger.noteBind, if_pos hKnown]
  have hPositions : ∀ m, (L.noteBind b l).positions m =
      if l = m then L.positions m ++ [b.code.length] else L.positions m :=
    fun m => positions_noteBind hKnown
  rw [bind_eq b l hRead]
  refine ⟨?_, ?_, ?_, ?_, ?_, ?_, ?_, ?_, ?_⟩
  · rw [hNote]
    exact h.patches
  · rw [hNote]
    exact h.ordered
  · rw [hNote]
    exact fun s hs => (h.holds s hs).grow (append_nil _).symm (append_nil _).symm
  · intro m y hNew
    rw [hPositions]
    by_cases hEq : l = m
    · subst hEq
      rw [if_pos rfl, boundOf_snoc, ← h.bound l x hRead]
      rw [getElem?_set_self hKnown] at hNew
      injection hNew with hNew
      exact hNew.symm
    · rw [if_neg hEq]
      rw [getElem?_set_ne hEq] at hNew
      exact h.bound m y hNew
  · intro m hNone
    rw [hPositions]
    by_cases hEq : l = m
    · subst hEq
      rw [getElem?_set_self hKnown] at hNone
      cases hNone
    · rw [if_neg hEq]
      rw [getElem?_set_ne hEq] at hNone
      exact h.unknown m hNone
  · rw [hNote]
    exact h.serves
  · rw [hNote]
    exact h.borrowed
  · rw [hNote]
    exact h.handlers
  · rw [hNote]
    exact h.proper

end B2Compiler.Rbc.RbcBuilder
