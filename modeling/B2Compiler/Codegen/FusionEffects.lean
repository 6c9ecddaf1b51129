import B2Compiler.Codegen.SuperBodies

/-!
# What single and fused bodies do to an activation

The scratch registers a body leaves behind are never read by the next one, so a
body acts on the activation alone.  `effect` is that action for the instructions
that occur in windows and `superEffect` the one of the superinstructions; both are
read off the bodies by running them.
-/

namespace B2Compiler.Codegen.Fusion

open Rbc Option
open Interp
open Baseline
open Codegen (Gpr kA kB kTagInt typeOfTag)
open Lib.X86 (Flags Cond)

/-! ## Actions -/

/-- A slot with an int written into it: tag and payload, the padding as it was. -/
def Slot.putInt (s : Slot) (v : BitVec 32) : Slot :=
  { s with tag := kTagInt, payload := v.signExtend 64 }

@[simp, grind =] theorem Slot.value_putInt (s : Slot) (v : BitVec 32) :
    (s.putInt v).value = ⟨.int, v.signExtend 64⟩ := rfl

/-- A whole int value. -/
def intSlot (v : BitVec 32) : Slot := ⟨kTagInt, 0, v.signExtend 64⟩

@[simp, grind =] theorem value_intSlot (v : BitVec 32) :
    (intSlot v).value = ⟨.int, v.signExtend 64⟩ := rfl

/-- The operation of a fused arithmetic chain. -/
def arith : Arith → BitVec 32 → BitVec 32 → BitVec 32
  | .add, a, b => a + b
  | .sub, a, b => a - b
  | .mul, a, b => a * b

/-- Does a condition hold after comparing two ints? -/
def cmpHolds (cc : Cond) (a b : BitVec 32) : Bool := cc.holds (Alu.eval .cmp a b).2

/-- Jump or go on. -/
def branch (taken : Bool) (target : Nat) (A : Activation) : Exit Activation :=
  if taken then .jump target A else .next A

/-- Go on after a helper, or leave through the thunk when it reports a trap. -/
def afterHelper (r : Activation × BitVec 32) : Exit Activation :=
  let A := { r.1 with trapKind := r.2 }
  if r.2 = 0 then .next A else .deopt A

/-- Go on from the end of a piece of a body; the other exits leave the whole body. -/
def Exit.andThen (e : Exit Activation) (f : Activation → Exit Activation) : Exit Activation :=
  match e with
  | .next A => f A
  | e => e

/-- The action of the instruction at step `k` of a window. -/
def effect (W : Window) (k : Nat) (A : Activation) : Option (Exit Activation) :=
  let ins := W.ins k
  let dst := W.regAddr ins.dstReg
  let a := W.regAddr ins.aReg
  let b := W.regAddr ins.bReg
  let loc := W.localAddr ins.immIdx
  let binary (f : Arith) : Exit Activation :=
    .next (A.setSlot dst ((A.slots dst).putInt (arith f (A.payload32 a) (A.payload32 b))))
  let test (t : Test) : Exit Activation :=
    branch (cmpHolds (testCc t) (A.payload32 a) 0) ins.immIdx A
  let compare (t : Test) : Exit Activation :=
    branch (cmpHolds (testCc t) (A.payload32 a) (A.payload32 b)) ins.immIdx A
  match ins.op with
  | .iconst => some (.next (A.setSlot dst ((A.slots dst).putInt ins.imm)))
  | .iload | .aload => some (.next (A.setSlot dst (A.slots loc)))
  | .istore => some (.next (A.setSlot loc (A.slots a)))
  | .iadd => some (binary .add)
  | .isub => some (binary .sub)
  | .imul => some (binary .mul)
  | .iinc => some (.next (A.setSlot dst ((A.slots dst).putInt (A.payload32 dst + ins.imm))))
  | .goto => some (.jump ins.immIdx A)
  | .ifeq => some (test .eq)
  | .ifne => some (test .ne)
  | .iflt => some (test .lt)
  | .ifge => some (test .ge)
  | .ifgt => some (test .gt)
  | .ifle => some (test .le)
  | .ifIcmpeq => some (compare .eq)
  | .ifIcmpne => some (compare .ne)
  | .ifIcmplt => some (compare .lt)
  | .ifIcmpge => some (compare .ge)
  | .ifIcmpgt => some (compare .gt)
  | .ifIcmple => some (compare .le)
  | .getfield => some (afterHelper (b2cgGetField A a (W.fieldWord ins.immIdx) dst))
  | .arraylength => some (afterHelper (b2cgArrayLength A a dst))
  | .ireturn => some (.ret (A.setSlot .ret (A.slots a)))
  | _ => none

/-- The actions of `len` instructions from step `k` on, one after another. -/
def effects (W : Window) : Nat → Nat → Activation → Option (Exit Activation)
  | _, 0, A => some (.next A)
  | k, len + 1, A =>
    (effect W k A).bind fun e =>
      match e with
      | .next A' => effects W (k + 1) len A'
      | e => some e

/-! ## Running bodies -/

section Run

variable (W : Window)

@[simp] theorem run_nil (c : Cpu) : run W [] c = .next c := rfl

theorem run_cons {op : EmitOp} {c c' : Cpu} (ops : List EmitOp) (h : exec W op c = .next c') :
    run W (op :: ops) c = run W ops c' := by
  rw [run, h]

@[simp] theorem single_ins (k j : Nat) : (W.single k).ins j = W.ins (k + j) := rfl

@[simp] theorem single_numLocals (k : Nat) : (W.single k).numLocals = W.numLocals := rfl

@[simp] theorem single_fieldWord (k : Nat) : (W.single k).fieldWord = W.fieldWord := rfl

@[simp] theorem single_regAddr (k r : Nat) : (W.single k).regAddr r = W.regAddr r := rfl

@[simp] theorem single_localAddr (k i : Nat) : (W.single k).localAddr i = W.localAddr i := rfl

@[simp] theorem addrOf_dstAt (k : Nat) : W.addrOf (dstAt k) = W.regAddr (W.ins k).dstReg := rfl

@[simp] theorem addrOf_aAt (k : Nat) : W.addrOf (aAt k) = W.regAddr (W.ins k).aReg := rfl

@[simp] theorem addrOf_bAt (k : Nat) : W.addrOf (bAt k) = W.regAddr (W.ins k).bReg := rfl

@[simp] theorem addrOf_localAt (k : Nat) :
    W.addrOf (localAt k) = W.localAddr (W.ins k).immIdx := rfl

end Run

/-! ### Pieces of bodies -/

section Pieces

variable (W : Window) (c : Cpu)

theorem run_append (xs ys : List EmitOp) : run W (xs ++ ys) c =
      match run W xs c with
      | .next c' => run W ys c'
      | e => e := by
  induction xs generalizing c with
  | nil => rfl
  | cons op xs ih =>
    rw [List.cons_append, run, run]
    cases exec W op c with
    | next c' => exact ih c'
    | jump t c' | deopt c' | ret c' => rfl

theorem setGpr32_gpr32 (r : Gpr) (v : BitVec 32) : (c.setGpr32 r v).gpr32 r = v := by
  simp [Cpu.setGpr32, Cpu.setGpr, Cpu.gpr32]

/-- The int result tail: the accumulator goes to the destination slot. -/
theorem run_storeResult32 (step : Nat) : ∃ c', run W (storeResult32 step) c = .next c' ∧
      c'.act = c.act.setSlot (W.regAddr (W.ins step).dstReg)
        ((c.act.slots (W.regAddr (W.ins step).dstReg)).putInt (c.gpr32 kA)) := by
  refine ⟨_, rfl, ?_⟩
  simp [Cpu.setSlot, Activation.setSlot, Cpu.setGpr, Slot.putInt]

/-- The operation of an arithmetic chain on a slot. -/
def arithOn (h : SlotHole) : Arith → EmitOp
  | .add => .aluSlot32 kA .add h
  | .sub => .aluSlot32 kA .sub h
  | .mul => .imulSlot32 kA h

theorem run_arith (f : Arith) (h₁ h₂ : SlotHole) :
    ∃ c', run W [.loadSlot32 kA h₁, arithOn h₂ f] c = .next c' ∧ c'.act = c.act ∧
      c'.gpr32 kA = arith f (c.act.payload32 (W.addrOf h₁)) (c.act.payload32 (W.addrOf h₂)) := by
  cases f with
  | add | sub | mul =>
    refine ⟨_, rfl, rfl, (setGpr32_gpr32 _ _ _).trans ?_⟩
    rw [setGpr32_gpr32]
    rfl

/-- A payload plus an immediate in the accumulator. -/
theorem run_addImm (h : SlotHole) (step : Nat) :
    ∃ c', run W [.loadSlot32 kA h, .addEaxImm32Hole step] c = .next c' ∧ c'.act = c.act ∧
      c'.gpr32 kA = c.act.payload32 (W.addrOf h) + (W.ins step).imm := by
  refine ⟨_, rfl, rfl, (setGpr32_gpr32 _ _ _).trans ?_⟩
  rw [setGpr32_gpr32]
  rfl

variable {pre : List EmitOp}

/-- A body that leaves `v` in the accumulator and stores it into its destination. -/
theorem run_intResult {c' : Cpu} {v : BitVec 32} (step : Nat) (hpre : run W pre c = .next c')
    (hact : c'.act = c.act) (hv : c'.gpr32 kA = v) :
    ∃ c'', run W (pre ++ storeResult32 step) c = .next c'' ∧
      c''.act = c.act.setSlot (W.regAddr (W.ins step).dstReg)
        ((c.act.slots (W.regAddr (W.ins step).dstReg)).putInt v) := by
  obtain ⟨c'', hrun, hact'⟩ := run_storeResult32 W c' step
  refine ⟨c'', ?_, ?_⟩
  · rw [run_append, hpre]
    exact hrun
  · rw [hact', hact, hv]

/-- A body that ends in a conditional jump, from the state in front of the jump. -/
theorem run_branch {c' : Cpu} {a b : BitVec 32} (cc : Cond) (step : Nat)
    (hpre : run W pre c = .next c') (hact : c'.act = c.act)
    (hflags : c'.flags = (Alu.eval .cmp a b).2) :
    (run W (pre ++ [.jccHole cc step]) c).map Cpu.act =
      branch (cmpHolds cc a b) (W.ins step).immIdx c.act := by
  rw [run_append, hpre]
  dsimp only
  rw [run, exec, branch, cmpHolds, ← hflags]
  by_cases h : cc.holds c'.flags = true
  · rw [if_pos h, if_pos h, ← hact]
    rfl
  · rw [if_neg h, if_neg h, ← hact]
    rfl

theorem run_cmpSlot (h₁ h₂ : SlotHole) :
    ∃ c', run W [.loadSlot32 kA h₁, .aluSlot32 kA .cmp h₂] c = .next c' ∧ c'.act = c.act ∧
      c'.flags = (Alu.eval .cmp (c.act.payload32 (W.addrOf h₁))
        (c.act.payload32 (W.addrOf h₂))).2 := by
  refine ⟨_, rfl, rfl, ?_⟩
  have hload := setGpr32_gpr32 c kA (c.act.payload32 (W.addrOf h₁))
  show (Alu.eval .cmp ((c.setGpr32 kA (c.act.payload32 (W.addrOf h₁))).gpr32 kA) _).2 = _
  rw [hload]
  rfl

theorem run_branchZero (cc : Cond) : (run W (branchZero cc) c).map Cpu.act =
      branch (cmpHolds cc (c.act.payload32 (W.regAddr (W.ins 0).aReg)) 0)
        (W.ins 0).immIdx c.act := by
  have hload := setGpr32_gpr32 c kA (c.act.payload32 (W.regAddr (W.ins 0).aReg))
  show (run W ([.loadSlot32 kA (aAt 0), .aluImm32 kA .cmp 0] ++ [.jccHole cc 0]) c).map _ = _
  refine run_branch W c cc 0 rfl rfl ?_
  rw [← hload]
  rfl

theorem run_branchIcmp (cc : Cond) : (run W (branchIcmp cc) c).map Cpu.act =
      branch (cmpHolds cc (c.act.payload32 (W.regAddr (W.ins 0).aReg))
        (c.act.payload32 (W.regAddr (W.ins 0).bReg))) (W.ins 0).immIdx c.act := by
  have hcmp := run_cmpSlot W c (aAt 0) (bAt 0)
  obtain ⟨c', hrun, hact, hflags⟩ := hcmp
  exact run_branch W c cc 0 hrun hact hflags

theorem run_helperTail (id : HelperId) {r : Activation × BitVec 32}
    (hr : Fusion.callHelper c id = { c with act := r.1 }.setGpr32 kA r.2) :
    ∃ c', run W (helperTail id) c = (if r.2 = 0 then .next c' else .deopt c') ∧
      c'.act = { r.1 with trapKind := r.2 } := by
  have hlow : ({ c with act := r.1 }.setGpr32 kA r.2).gpr32 kA = r.2 := setGpr32_gpr32 _ _ _
  have hact : (Fusion.callHelper c id).act = r.1 := by rw [hr]; rfl
  have hacc : (Fusion.callHelper c id).gpr32 kA = r.2 := by rw [hr]; exact hlow
  refine ⟨{ Fusion.callHelper c id with
    act := { (Fusion.callHelper c id).act with trapKind := (Fusion.callHelper c id).gpr32 kA }
    flags := ⟨false, (Fusion.callHelper c id).gpr32 kA == 0,
      ((Fusion.callHelper c id).gpr32 kA).msb, false⟩ }, ?_, ?_⟩
  · have hgpr : ∀ A : Activation, ({ Fusion.callHelper c id with act := A }).gpr32 kA = r.2 :=
      fun _ => hacc
    unfold helperTail
    rw [run_cons W _ rfl, run_cons W _ rfl, run_cons W _ rfl, run, exec]
    by_cases h : r.2 = 0#32
    all_goals simp [Cond.holds, hgpr, h]
  · rw [hact, hacc]

/-- A helper call in the middle of a body: it goes on or leaves through the thunk. -/
theorem run_helper {c' : Cpu} {id : HelperId} {r : Activation × BitVec 32} (post : List EmitOp)
    (hpre : run W pre c = .next c')
    (hr : Fusion.callHelper c' id = { c' with act := r.1 }.setGpr32 kA r.2) :
    ∃ c'', c''.act = { r.1 with trapKind := r.2 } ∧ run W (pre ++ helperTail id ++ post) c =
        if r.2 = 0 then run W post c'' else .deopt c'' := by
  obtain ⟨c'', hrun, hact⟩ := run_helperTail W c' id hr
  refine ⟨c'', hact, ?_⟩
  rw [List.append_assoc, run_append, hpre]
  dsimp only
  rw [run_append, hrun]
  by_cases h : r.2 = 0
  · rw [if_pos h, if_pos h]
  · rw [if_neg h, if_neg h]

theorem run_helperCall {c' : Cpu} {id : HelperId} {r : Activation × BitVec 32}
    (hpre : run W pre c = .next c')
    (hr : Fusion.callHelper c' id = { c' with act := r.1 }.setGpr32 kA r.2) :
    (run W (pre ++ helperTail id) c).map Cpu.act = afterHelper r := by
  obtain ⟨c'', hact, hrun⟩ := run_helper W c [] hpre hr
  rw [List.append_nil] at hrun
  rw [hrun, afterHelper, run_nil, ← hact]
  by_cases h : r.2 = 0
  · rw [if_pos h, if_pos h, Exit.map]
  · rw [if_neg h, if_neg h, Exit.map]

end Pieces

theorem run_emitOpBody (W : Window) (k : Nat) {body : List EmitOp}
    (h : emitOpBody (W.ins k).op = some body) (c : Cpu) :
    effect W k c.act = some ((run (W.single k) body c).map Cpu.act) := by
  have hresult : ∀ {pre : List EmitOp} {v : BitVec 32},
      (∃ c', run (W.single k) pre c = .next c' ∧ c'.act = c.act ∧ c'.gpr32 kA = v) →
      (run (W.single k) (pre ++ storeResult32 0) c).map Cpu.act =
        .next (c.act.setSlot (W.regAddr (W.ins k).dstReg)
          ((c.act.slots (W.regAddr (W.ins k).dstReg)).putInt v)) := by
    intro pre v ⟨c', hpre, hact, hv⟩
    obtain ⟨c'', hrun, hact'⟩ := run_intResult (W.single k) c 0 hpre hact hv
    rw [hrun, Exit.map, hact']
    rfl
  unfold emitOpBody at h
  split at h <;> rename_i hop
  case h_25 => cases h
  all_goals
    unfold effect
    dsimp only
    rw [hop]
    cases h
    refine congrArg some (Eq.symm ?_)
  -- constants, moves between locals and registers
  case h_1 =>
    simp [run, exec, Exit.map, Cpu.setSlot, Activation.setSlot, Slot.putInt]
  case h_2 | h_3 | h_4 => rfl
  -- arithmetic
  case h_5 => exact hresult (run_arith (W.single k) c .add (aAt 0) (bAt 0))
  case h_6 => exact hresult (run_arith (W.single k) c .sub (aAt 0) (bAt 0))
  case h_7 => exact hresult (run_arith (W.single k) c .mul (aAt 0) (bAt 0))
  case h_8 => exact hresult (run_addImm (W.single k) c (dstAt 0) 0)
  case h_9 => rfl
  -- tests against zero and of two registers
  case h_10 | h_11 | h_12 | h_13 | h_14 | h_15 => exact run_branchZero (W.single k) c _
  case h_16 | h_17 | h_18 | h_19 | h_20 | h_21 => exact run_branchIcmp (W.single k) c _
  -- helper calls
  case h_22 | h_23 => exact run_helperCall (W.single k) c rfl rfl
  case h_24 => rfl

/-- An instruction without a body has no action. -/
theorem effect_none (W : Window) (k : Nat) (h : emitOpBody (W.ins k).op = none)
    (A : Activation) : effect W k A = none := by
  unfold emitOpBody at h
  split at h
  case h_25 =>
    unfold effect
    dsimp only
    split <;> first | rfl | simp_all
  all_goals cases h

theorem runSteps_effects (W : Window) (k len : Nat) (c : Cpu) :
    (runSteps W k len c).map (Exit.map Cpu.act) = effects W k len c.act := by
  induction len generalizing k c with
  | zero => rfl
  | succ len ih =>
    rw [runSteps, effects]
    cases hbody : emitOpBody (W.ins k).op with
    | none =>
      rw [effect_none W k hbody]
      rfl
    | some body =>
      rw [run_emitOpBody W k hbody c, bind_some, bind_some]
      cases hrun : run (W.single k) body c with
      | next c' => exact ih (k + 1) c'
      | jump t c' | deopt c' | ret c' => rfl

/-! ### Helpers -/

/-- A helper that leaves an exception behind and reports a trap. -/
def trapped (A : Activation) (exc : Nat) (rt : Runtime) : Activation × BitVec 32 :=
  ({ A with rt := rt, pendingExc := exc, trapKind := kTrapNpe }, kTrapNpe)

theorem trap_spec (rt : Runtime) (cls msg : String) :
    ∃ exc rt', ∀ A : Activation, A.rt = rt → trap A kTrapNpe cls msg = trapped A exc rt' := by
  refine ⟨(rt.makeException cls msg).1, (rt.makeException cls msg).2, ?_⟩
  intro A hA
  subst hA
  rfl

/-- A field read looks at the runtime and at the value in its object slot: it
delivers a value, or it traps. -/
theorem getField_spec (rt : Runtime) (o : Value) (w : BitVec 32) :
    (∃ v rt', ∀ A obj dst, A.rt = rt → (A.slots obj).value = o →
      b2cgGetField A obj w dst = ({ A with rt := rt' }.setSlot dst (.ofValue v), 0)) ∨
    ∃ exc rt', ∀ A obj dst, A.rt = rt → (A.slots obj).value = o →
      b2cgGetField A obj w dst = trapped A exc rt' := by
  by_cases hnull : o.isNull = true
  · right
    obtain ⟨exc, rt', h⟩ := trap_spec rt kClsNullPointer ""
    refine ⟨exc, rt', fun A obj dst hA ho => ?_⟩
    rw [b2cgGetField, ho, if_pos hnull]
    exact h A hA
  · let read := rt.heap.loadField o.asObj
      (Runtime.slotOfFieldOffset (w &&& 0x0FFFFFFF).toNat)
    -- the object may have grown, in a trap behind the read as well
    let grown : Runtime := { rt with heap := read.2 }
    have htrap : ∀ cls msg, ∃ exc rt', ∀ A : Activation, A.rt = rt →
        trap { A with rt := grown } kTrapNpe cls msg = trapped A exc rt' := by
      intro cls msg
      obtain ⟨exc, rt', h⟩ := trap_spec grown cls msg
      exact ⟨exc, rt', fun A _ => h { A with rt := grown } rfl⟩
    by_cases hbot : read.1.type = .bottom
    · by_cases hinst : read.2.isInstance o.asObj = true
      · by_cases htype : fieldTypeOf w = .bottom
        · right
          obtain ⟨exc, rt', h⟩ :=
            htrap kClsInternalError "quickened getfield of unwritten field (v0)"
          refine ⟨exc, rt', fun A obj dst hA ho => ?_⟩
          have hrun := h A hA
          subst hA
          rw [b2cgGetField, ho, if_neg hnull]
          dsimp only
          rw [if_pos hbot, if_neg (not_not_intro hinst), htype]
          exact hrun
        · left
          refine ⟨zeroOf (fieldTypeOf w), grown, fun A obj dst hA ho => ?_⟩
          subst hA
          rw [b2cgGetField, ho, if_neg hnull]
          dsimp only
          rw [if_pos hbot, if_neg (not_not_intro hinst)]
          cases ht : fieldTypeOf w with
          | bottom => exact absurd ht htype
          | int | long | float | double | null | ref => rfl
      · right
        obtain ⟨exc, rt', h⟩ := htrap kClsInternalError kMsgNonInstance
        refine ⟨exc, rt', fun A obj dst hA ho => ?_⟩
        have hrun := h A hA
        subst hA
        rw [b2cgGetField, ho, if_neg hnull]
        dsimp only
        rw [if_pos hbot, if_pos hinst]
        exact hrun
    · left
      refine ⟨read.1, grown, fun A obj dst hA ho => ?_⟩
      subst hA
      rw [b2cgGetField, ho, if_neg hnull]
      dsimp only
      rw [if_neg hbot]

theorem arrayLength_spec (rt : Runtime) (o : Value) :
    (∃ v, ∀ A arr dst, A.rt = rt → (A.slots arr).value = o →
      b2cgArrayLength A arr dst = (A.setSlot dst (.ofValue (.intVal v)), 0)) ∨
    ∃ exc rt', ∀ A arr dst, A.rt = rt → (A.slots arr).value = o →
      b2cgArrayLength A arr dst = trapped A exc rt' := by
  by_cases hnull : o.isNull = true
  · right
    obtain ⟨exc, rt', h⟩ := trap_spec rt kClsNullPointer ""
    refine ⟨exc, rt', fun A arr dst hA ho => ?_⟩
    rw [b2cgArrayLength, ho, if_pos hnull]
    exact h A hA
  · by_cases harr : rt.heap.isArray o.asObj = true
    · left
      refine ⟨BitVec.ofNat 32 (rt.heap.arrayLength o.asObj), fun A arr dst hA ho => ?_⟩
      subst hA
      rw [b2cgArrayLength, ho, if_neg hnull, if_neg (by simp [harr])]
    · right
      obtain ⟨exc, rt', h⟩ := trap_spec rt kClsInternalError "arraylength on non-array"
      refine ⟨exc, rt', fun A arr dst hA ho => ?_⟩
      have hrun := h A hA
      subst hA
      rw [b2cgArrayLength, ho, if_neg hnull, if_pos harr]
      exact hrun

/-- Two field reads with the same runtime and the same object deliver the same value
into their destinations, or both leave through the thunk with the same exception. -/
theorem getField_pair {A B : Activation} {objA objB : Addr} (w : BitVec 32) (dstA dstB : Addr)
    (hobj : (A.slots objA).value = (B.slots objB).value) (hrt : A.rt = B.rt) :
    (∃ v rt, afterHelper (b2cgGetField A objA w dstA) =
        .next ({ A with rt := rt, trapKind := 0 }.setSlot dstA (.ofValue v)) ∧
      afterHelper (b2cgGetField B objB w dstB) =
        .next ({ B with rt := rt, trapKind := 0 }.setSlot dstB (.ofValue v))) ∨
    ∃ exc rt, afterHelper (b2cgGetField A objA w dstA) =
        .deopt { A with rt := rt, pendingExc := exc, trapKind := kTrapNpe } ∧
      afterHelper (b2cgGetField B objB w dstB) =
        .deopt { B with rt := rt, pendingExc := exc, trapKind := kTrapNpe } := by
  rcases getField_spec B.rt (B.slots objB).value w with ⟨v, rt, h⟩ | ⟨exc, rt, h⟩
  · left
    refine ⟨v, rt, ?_, ?_⟩
    · rw [h A objA dstA hrt hobj]
      rfl
    · rw [h B objB dstB rfl rfl]
      rfl
  · right
    refine ⟨exc, rt, ?_, ?_⟩
    · rw [h A objA dstA hrt hobj]
      rfl
    · rw [h B objB dstB rfl rfl]
      rfl

theorem arrayLength_pair {A B : Activation} {arrA arrB : Addr} (dstA dstB : Addr)
    (harr : (A.slots arrA).value = (B.slots arrB).value) (hrt : A.rt = B.rt) :
    (∃ v, afterHelper (b2cgArrayLength A arrA dstA) =
        .next ({ A with trapKind := 0 }.setSlot dstA (.ofValue (.intVal v))) ∧
      afterHelper (b2cgArrayLength B arrB dstB) =
        .next ({ B with trapKind := 0 }.setSlot dstB (.ofValue (.intVal v)))) ∨
    ∃ exc rt, afterHelper (b2cgArrayLength A arrA dstA) =
        .deopt { A with rt := rt, pendingExc := exc, trapKind := kTrapNpe } ∧
      afterHelper (b2cgArrayLength B arrB dstB) =
        .deopt { B with rt := rt, pendingExc := exc, trapKind := kTrapNpe } := by
  rcases arrayLength_spec B.rt (B.slots arrB).value with ⟨v, h⟩ | ⟨exc, rt, h⟩
  · left
    refine ⟨v, ?_, ?_⟩
    · rw [h A arrA dstA hrt harr]
      rfl
    · rw [h B arrB dstB rfl rfl]
      rfl
  · right
    refine ⟨exc, rt, ?_, ?_⟩
    · rw [h A arrA dstA hrt harr]
      rfl
    · rw [h B arrB dstB rfl rfl]
      rfl

/-! ### Actions by opcode -/

section Actions

variable {W : Window} {k len : Nat} {A A' : Activation}

theorem effects_next (h : effect W k A = some (.next A')) :
    effects W k (len + 1) A = effects W (k + 1) len A' := by
  rw [effects, h, bind_some]

theorem effects_branch {taken : Bool} {t : Nat} (h : effect W k A = some (branch taken t A)) :
    effects W k 1 A = some (branch taken t A) := by
  rw [effects, h, bind_some, branch]
  cases taken <;> rfl

theorem effects_ret (h : effect W k A = some (.ret A')) :
    effects W k (len + 1) A = some (.ret A') := by
  rw [effects, h, bind_some]

theorem effects_deopt (h : effect W k A = some (.deopt A')) :
    effects W k (len + 1) A = some (.deopt A') := by
  rw [effects, h, bind_some]

theorem effects_jump {t : Nat} (h : effect W k A = some (.jump t A')) :
    effects W k (len + 1) A = some (.jump t A') := by
  rw [effects, h, bind_some]

theorem effect_load (h : (W.ins k).op = .iload ∨ (W.ins k).op = .aload) :
    effect W k A = some (.next (A.setSlot (W.regAddr (W.ins k).dstReg)
      (A.slots (W.localAddr (W.ins k).immIdx)))) := by
  unfold effect
  dsimp only
  rcases h with h | h <;> rw [h]

theorem effect_store (h : (W.ins k).op = .istore) :
    effect W k A = some (.next (A.setSlot (W.localAddr (W.ins k).immIdx)
      (A.slots (W.regAddr (W.ins k).aReg)))) := by
  unfold effect
  dsimp only
  rw [h]

theorem effect_arith (f : Arith) (h : (W.ins k).op = f.op) :
    effect W k A = some (.next (A.setSlot (W.regAddr (W.ins k).dstReg)
      ((A.slots (W.regAddr (W.ins k).dstReg)).putInt
        (arith f (A.payload32 (W.regAddr (W.ins k).aReg))
          (A.payload32 (W.regAddr (W.ins k).bReg)))))) := by
  unfold effect
  dsimp only
  rw [h]
  cases f <;> rfl

theorem effect_iinc (h : (W.ins k).op = .iinc) :
    effect W k A = some (.next (A.setSlot (W.regAddr (W.ins k).dstReg)
      ((A.slots (W.regAddr (W.ins k).dstReg)).putInt
        (A.payload32 (W.regAddr (W.ins k).dstReg) + (W.ins k).imm)))) := by
  unfold effect
  dsimp only
  rw [h]

theorem effect_iconst (h : (W.ins k).op = .iconst) :
    effect W k A = some (.next (A.setSlot (W.regAddr (W.ins k).dstReg)
      ((A.slots (W.regAddr (W.ins k).dstReg)).putInt (W.ins k).imm))) := by
  unfold effect
  dsimp only
  rw [h]

theorem effect_if (t : Test) (h : (W.ins k).op = t.ifOp) :
    effect W k A = some (branch (cmpHolds (testCc t) (A.payload32 (W.regAddr (W.ins k).aReg)) 0)
      (W.ins k).immIdx A) := by
  unfold effect
  dsimp only
  rw [h]
  cases t <;> rfl

theorem effect_ifIcmp (t : Test) (h : (W.ins k).op = t.ifIcmpOp) :
    effect W k A = some (branch (cmpHolds (testCc t) (A.payload32 (W.regAddr (W.ins k).aReg))
      (A.payload32 (W.regAddr (W.ins k).bReg))) (W.ins k).immIdx A) := by
  unfold effect
  dsimp only
  rw [h]
  cases t <;> rfl

theorem effect_getfield (h : (W.ins k).op = .getfield) :
    effect W k A = some (afterHelper (b2cgGetField A (W.regAddr (W.ins k).aReg)
      (W.fieldWord (W.ins k).immIdx) (W.regAddr (W.ins k).dstReg))) := by
  unfold effect
  dsimp only
  rw [h]

theorem effect_arraylength (h : (W.ins k).op = .arraylength) :
    effect W k A = some (afterHelper (b2cgArrayLength A (W.regAddr (W.ins k).aReg)
      (W.regAddr (W.ins k).dstReg))) := by
  unfold effect
  dsimp only
  rw [h]

theorem effect_goto (h : (W.ins k).op = .goto) :
    effect W k A = some (.jump (W.ins k).immIdx A) := by
  unfold effect
  dsimp only
  rw [h]

theorem effect_ireturn (h : (W.ins k).op = .ireturn) :
    effect W k A = some (.ret (A.setSlot .ret (A.slots (W.regAddr (W.ins k).aReg)))) := by
  unfold effect
  dsimp only
  rw [h]

end Actions

/-! ## Superinstructions -/

/-- The action of a superinstruction. -/
def superEffect (W : Window) (s : SuperName) (A : Activation) : Exit Activation :=
  let loc (k : Nat) := W.localAddr (W.ins k).immIdx
  let dst (k : Nat) := W.regAddr (W.ins k).dstReg
  match s with
  | .iloadIload f =>
    .next (A.setSlot (dst 2) ((A.slots (dst 2)).putInt
      (arith f (A.payload32 (loc 0)) (A.payload32 (loc 1)))))
  | .iloadIloadIstore f =>
    .next (A.setSlot (loc 3) (intSlot (arith f (A.payload32 (loc 0)) (A.payload32 (loc 1)))))
  | .iloadIincIstore => .next (A.setSlot (loc 2) (intSlot (A.payload32 (loc 0) + (W.ins 1).imm)))
  | .iloadIstore => .next (A.setSlot (loc 1) (A.slots (loc 0)))
  | .iloadIreturn => .ret (A.setSlot .ret (A.slots (loc 0)))
  | .iloadIf t => branch (cmpHolds (testCc t) (A.payload32 (loc 0)) 0) (W.ins 1).immIdx A
  | .iloadIconstIfIcmp t =>
    branch (cmpHolds (testCc t) (A.payload32 (loc 0)) (W.ins 1).imm) (W.ins 2).immIdx A
  | .aloadGetfield => afterHelper (b2cgGetField A (loc 0) (W.fieldWord (W.ins 1).immIdx) (dst 1))
  | .aloadArraylengthIf =>
    (afterHelper (b2cgArrayLength A (loc 0) (dst 1))).andThen fun A =>
      branch (cmpHolds .g (A.payload32 (W.regAddr (W.ins 2).aReg))
        (A.payload32 (W.regAddr (W.ins 2).bReg))) (W.ins 2).immIdx A
  | .iincGoto =>
    .jump (W.ins 1).immIdx (A.setSlot (dst 0)
      ((A.slots (dst 0)).putInt (A.payload32 (dst 0) + (W.ins 0).imm)))
  | .aloadGetfieldIreturn =>
    (afterHelper (b2cgGetField A (loc 0) (W.fieldWord (W.ins 1).immIdx) .ret)).andThen .ret

theorem superEffect_getfieldIreturn {W : Window} {A : Activation} {e : Exit Activation}
    (h : afterHelper (b2cgGetField A (W.localAddr (W.ins 0).immIdx)
      (W.fieldWord (W.ins 1).immIdx) .ret) = e) :
    superEffect W .aloadGetfieldIreturn A = e.andThen .ret := by
  subst h
  rfl

theorem superEffect_arraylengthIf {W : Window} {A : Activation} {e : Exit Activation}
    (h : afterHelper (b2cgArrayLength A (W.localAddr (W.ins 0).immIdx)
      (W.regAddr (W.ins 1).dstReg)) = e) :
    superEffect W .aloadArraylengthIf A = e.andThen fun A =>
      branch (cmpHolds .g (A.payload32 (W.regAddr (W.ins 2).aReg))
        (A.payload32 (W.regAddr (W.ins 2).bReg))) (W.ins 2).immIdx A := by
  subst h
  rfl

theorem halves (v : BitVec 64) : v.extractLsb' 32 32 ++ v.setWidth 32 = v := by
  ext i hi
  simp only [BitVec.getElem_append, BitVec.getElem_extractLsb', BitVec.getElem_setWidth]
  grind

/-- A value built whole from the accumulator and stored into a local. -/
theorem run_wholeResult (W : Window) (c : Cpu) {pre : List EmitOp} {v : BitVec 32} (step : Nat)
    (h : ∃ c', run W pre c = .next c' ∧ c'.act = c.act ∧ c'.gpr32 kA = v) :
    (run W (pre ++ storeIntValueWhole kA step) c).map Cpu.act =
      .next (c.act.setSlot (W.localAddr (W.ins step).immIdx) (intSlot v)) := by
  obtain ⟨c', hpre, hact, hv⟩ := h
  have hlow : (c'.gpr kA).setWidth 32 = v := hv
  rw [run_append, hpre]
  simp [storeIntValueWhole, run, exec, Exit.map, Cpu.setSlot, Activation.setSlot, hact, hlow,
    Cpu.setGpr, Cpu.setGpr32, Cpu.gpr32, intSlot, halves]

theorem run_emitSuperBody (W : Window) (s : SuperName) (c : Cpu) :
    (run W (emitSuperBody s) c).map Cpu.act = superEffect W s c.act := by
  cases s with
  | iloadIload f =>
    obtain ⟨c', hpre, hact, hv⟩ := run_arith W c f (localAt 0) (localAt 1)
    obtain ⟨c'', hrun, hact'⟩ := run_intResult W c 2 hpre hact hv
    have hbody : emitSuperBody (.iloadIload f) =
        [.loadSlot32 kA (localAt 0), arithOn (localAt 1) f] ++ storeResult32 2 := by
      cases f <;> rfl
    rw [hbody, hrun, Exit.map, hact']
    rfl
  | iloadIloadIstore f =>
    have hbody : emitSuperBody (.iloadIloadIstore f) =
        [.loadSlot32 kA (localAt 0), arithOn (localAt 1) f] ++ storeIntValueWhole kA 3 := by
      cases f <;> rfl
    rw [hbody, run_wholeResult W c 3 (run_arith W c f (localAt 0) (localAt 1))]
    rfl
  | iloadIincIstore => exact run_wholeResult W c 2 (run_addImm W c (localAt 0) 1)
  | iloadIstore | iloadIreturn => rfl
  | iloadIf t =>
    show (run W ([.cmpSlotZero (localAt 0)] ++ [.jccHole (testCc t) 1]) c).map _ = _
    exact run_branch W c (testCc t) 1 rfl rfl rfl
  | iloadIconstIfIcmp t =>
    have hload := setGpr32_gpr32 c kA (c.act.payload32 (W.localAddr (W.ins 0).immIdx))
    show (run W ([.loadSlot32 kA (localAt 0), .cmpEaxImm32Hole 1] ++
      [.jccHole (testCc t) 2]) c).map _ = _
    refine run_branch W c (testCc t) 2 rfl rfl ?_
    rw [← hload]
    rfl
  | aloadGetfield => exact run_helperCall W c rfl rfl
  | aloadArraylengthIf =>
    let r := b2cgArrayLength c.act (W.localAddr (W.ins 0).immIdx) (W.regAddr (W.ins 1).dstReg)
    have hcall : ∃ c', c'.act = { r.1 with trapKind := r.2 } ∧
        run W (emitSuperBody .aloadArraylengthIf) c =
          if r.2 = 0 then
            run W ([.loadSlot32 kA (aAt 2), .aluSlot32 kA .cmp (bAt 2)] ++ [.jccHole .g 2]) c'
          else .deopt c' := run_helper W c _ rfl rfl
    obtain ⟨c', hact, hrun⟩ := hcall
    rw [hrun]
    show _ = (afterHelper r).andThen _
    rw [afterHelper, ← hact]
    by_cases h : r.2 = 0
    · rw [if_pos h, if_pos h]
      obtain ⟨c'', hpre, hact', hflags⟩ := run_cmpSlot W c' (aAt 2) (bAt 2)
      exact run_branch W c' .g 2 hpre hact' hflags
    · rw [if_neg h, if_neg h]
      rfl
  | iincGoto =>
    obtain ⟨c', hpre, hact, hv⟩ := run_addImm W c (dstAt 0) 0
    obtain ⟨c'', hrun, hact'⟩ := run_intResult W c 0 hpre hact hv
    show (run W (([.loadSlot32 kA (dstAt 0), .addEaxImm32Hole 0] ++ storeResult32 0) ++
      [.jmpHole 1]) c).map _ = _
    rw [run_append, hrun]
    show Exit.jump (W.ins 1).immIdx c''.act = _
    rw [hact']
    rfl
  | aloadGetfieldIreturn =>
    let r := b2cgGetField c.act (W.localAddr (W.ins 0).immIdx)
      (W.fieldWord (W.ins 1).immIdx) .ret
    have hcall : ∃ c', c'.act = { r.1 with trapKind := r.2 } ∧
        run W (emitSuperBody .aloadGetfieldIreturn) c =
          if r.2 = 0 then run W exitNormal c' else .deopt c' := run_helper W c _ rfl rfl
    obtain ⟨c', hact, hrun⟩ := hcall
    rw [hrun]
    show _ = (afterHelper r).andThen _
    rw [afterHelper, ← hact]
    by_cases h : r.2 = 0
    · rw [if_pos h, if_pos h]
      rfl
    · rw [if_neg h, if_neg h]
      rfl

end B2Compiler.Codegen.Fusion
