import B2Compiler.Rbc.MethodBuilderExact

/-!
# From emitted code to the published method

A piece of code is emitted somewhere in the middle of a method: calls come before it and after
it, and in the end the method is published.  Then the instruction is where it was emitted, as
it was emitted or with the place of its label.
-/

namespace B2Compiler.Rbc.RbcBuilder

open List

variable {b b' c : RbcBuilder} {ins : Ins}

/-! ## What emission leaves alone -/

/-- Code, patches and labels only come to what was there; a label that is bound stays where it
is, or is spoiled for good. -/
structure Grows (b b' : RbcBuilder) : Prop where
  code : b.code <+: b'.code
  patches : ∃ new, b'.patches = b.patches ++ new ∧
    ∀ p ∈ new, b.code.length ≤ p.pc ∧ p.pc < b'.code.length
  bound : ∀ (l t : Nat), b.boundAt[l]? = some (.at t) →
    b'.boundAt[l]? = some (.at t) ∨ b'.boundAt[l]? = some .doubleBound
  spoiled : ∀ l : Nat, b.boundAt[l]? = some .doubleBound → b'.boundAt[l]? = some .doubleBound

theorem Grows.of_same (hCode : b'.code = b.code) (hPatches : b'.patches = b.patches)
    (hBound : b'.boundAt = b.boundAt) : Grows b b' where
  code := hCode ▸ prefix_refl _
  patches := ⟨[], by rw [hPatches, append_nil], fun p hp => absurd hp not_mem_nil⟩
  bound := fun _ _ h => .inl (hBound ▸ h)
  spoiled := fun _ h => hBound ▸ h

theorem Grows.refl (b : RbcBuilder) : Grows b b := .of_same rfl rfl rfl

theorem Grows.trans (h : Grows b b') (h' : Grows b' c) : Grows b c where
  code := h.code.trans h'.code
  patches := by
    obtain ⟨new, hNew, hIn⟩ := h.patches
    obtain ⟨new', hNew', hIn'⟩ := h'.patches
    refine ⟨new ++ new', by rw [hNew', hNew, append_assoc], fun p hp => ?_⟩
    have hLe := h.code.length_le
    have hLe' := h'.code.length_le
    rcases mem_append.mp hp with hp | hp
    · have := hIn p hp
      omega
    · have := hIn' p hp
      omega
  bound := by
    intro l t hAt
    rcases h.bound l t hAt with hAt' | hSpoiled
    · exact h'.bound l t hAt'
    · exact .inr (h'.spoiled l hSpoiled)
  spoiled := fun l hl => h'.spoiled l (h.spoiled l hl)

theorem Grows.of_emit {i : Ins} {new : List Patch} (hCode : b'.code = b.code ++ [i])
    (hPatches : b'.patches = b.patches ++ new) (hNew : ∀ p ∈ new, p.pc = b.code.length)
    (hBound : b'.boundAt = b.boundAt) : Grows b b' where
  code := hCode ▸ prefix_append _ _
  patches := by
    refine ⟨new, hPatches, fun p hp => ?_⟩
    rw [hNew p hp, hCode, length_append]
    exact ⟨Nat.le_refl _, Nat.lt_succ_self _⟩
  bound := fun _ _ h => .inl (hBound ▸ h)
  spoiled := fun _ h => hBound ▸ h

theorem grows_rawEmit (b : RbcBuilder) (i : Ins) : Grows b (b.rawEmit i) :=
  .of_emit rfl (append_nil _).symm (fun _ hp => absurd hp not_mem_nil) rfl

theorem grows_emitPatched (b : RbcBuilder) (i : Ins) (labels : List Nat) :
    Grows b (b.emitPatched i labels) := by
  refine .of_emit (i := i) rfl rfl (fun p hp => ?_) rfl
  obtain ⟨l, -, rfl⟩ := mem_map.mp hp
  rfl

theorem grows_emitSwitch (b : RbcBuilder) (op : Op) (a : BitVec 16) (payload : List (BitVec 32))
    (targets : List Nat) : Grows b (b.emitSwitch op a payload targets) := by
  rw [RbcBuilder.emitSwitch]
  split_ifs
  · exact grows_emitPatched b _ _
  · refine .of_emit rfl rfl (fun p hp => ?_) rfl
    obtain ⟨q, -, rfl⟩ := mem_map.mp hp
    rfl

theorem grows_internConst (b : RbcBuilder) (k : Const) : Grows b (b.internConst k).1 := by
  rcases internConst_spec b k with ⟨-, -, -, hSame⟩ | ⟨-, hNew⟩
  · rw [hSame]
    exact .refl b
  · rw [hNew]
    exact .of_same rfl rfl rfl

theorem grows_newLabel (b : RbcBuilder) : Grows b b.newLabel where
  code := prefix_refl _
  patches := ⟨[], (append_nil _).symm, fun p hp => absurd hp not_mem_nil⟩
  bound := fun _ _ h => .inl (getElem?_append_some h)
  spoiled := fun _ h => getElem?_append_some h

theorem grows_bind (b : RbcBuilder) (l : Nat) : Grows b (b.bind l) := by
  rcases hRead : b.boundAt[l]? with _ | x
  · rw [RbcBuilder.bind, hRead]
    exact .refl b
  have hIn := (List.getElem?_eq_some_iff.mp hRead).1
  rw [bind_eq b l hRead]
  refine ⟨prefix_refl _, ⟨[], (append_nil _).symm, by simp⟩, ?_, ?_⟩
  · intro k t hAt
    by_cases hEq : l = k
    · subst hEq
      right
      rw [hRead] at hAt
      injection hAt with hAt
      rw [getElem?_set_self hIn, hAt]
      rfl
    · left
      rw [getElem?_set_ne hEq]
      exact hAt
  · intro k hSpoiled
    by_cases hEq : l = k
    · subst hEq
      rw [hRead] at hSpoiled
      injection hSpoiled with hSpoiled
      rw [getElem?_set_self hIn, hSpoiled]
      rfl
    · rw [getElem?_set_ne hEq]
      exact hSpoiled

theorem grows_step (b : RbcBuilder) (L : Ledger) {call : Call}
    (hCall : ∀ out, call ≠ .finish out) : Grows b (b.step L call).1 := by
  cases call with
  | setRegs | setLocals | newReg | addHandler => exact .of_same rfl rfl rfl
  | constInt | constLong | constFloat | constDouble | constString | constClass | constFieldRef
  | constMethodRef | constSwitch => exact grows_internConst b _
  | emitBranch | emitRegBranch | emitRegRegBranch => exact grows_emitPatched b _ _
  | emitSwitch op a payload targets => exact grows_emitSwitch b op a payload targets
  | newLabel | handlerLabel => exact grows_newLabel b
  | bind l => exact grows_bind b l
  | finish out => exact absurd rfl (hCall out)
  | _ => exact grows_rawEmit b _

theorem grows_runFrom {calls : List Call} (hCalls : ∀ call ∈ calls, ∀ out, call ≠ .finish out)
    (b : RbcBuilder) (L : Ledger) : Grows b (runFrom calls (b, L)).1 := by
  induction calls generalizing b L with
  | nil => exact .refl b
  | cons call calls ih =>
    exact (grows_step b L (hCalls call mem_cons_self)).trans
      (ih (fun k hk => hCalls k (mem_cons_of_mem _ hk)) _ _)

/-- Every patch is inside the code. -/
def Tidy (b : RbcBuilder) : Prop := ∀ p ∈ b.patches, p.pc < b.code.length

theorem Grows.tidy (h : Grows b b') (hTidy : b.Tidy) : b'.Tidy := by
  obtain ⟨new, hNew, hIn⟩ := h.patches
  intro p hp
  rw [hNew] at hp
  rcases mem_append.mp hp with hp | hp
  · exact Nat.lt_of_lt_of_le (hTidy p hp) h.code.length_le
  · exact (hIn p hp).2

variable {i t : Nat} {ps : List Patch} {m : Method}

/-- What was emitted without a label has no patch later on either. -/
theorem Grows.no_patch (h : Grows b b') (hIn : i < b.code.length)
    (hNone : ∀ p ∈ b.patches, p.pc ≠ i) : ∀ p ∈ b'.patches, p.pc ≠ i := by
  obtain ⟨new, hNew, hPlace⟩ := h.patches
  intro p hp
  rw [hNew] at hp
  rcases mem_append.mp hp with hp | hp
  · exact hNone p hp
  · have := (hPlace p hp).1
    omega

theorem Grows.getElem? (h : Grows b b') (hRead : b.code[i]? = some ins) :
    b'.code[i]? = some ins := by
  obtain ⟨rest, hRest⟩ := h.code
  rw [← hRest]
  exact getElem?_append_some hRead

/-! ## The published method -/

structure Published (b : RbcBuilder) (m : Method) : Prop where
  finished : ∃ calls L out fin, (∀ call ∈ calls, ∀ out, call ≠ .finish out) ∧
    (runFrom calls (b, L)).1.finish out = (fin, ⟨true, ""⟩, m)
  /-- No register that was handed out is taken back. -/
  registers : b.numRegs.toNat ≤ m.numRegs
  /-- Instruction indices have 32 bits. -/
  fits : m.code.length ≤ 2 ^ 32

theorem writeTarget_read {p : Patch} (h : b.writeTarget p t = .ok b') (hNe : p.pc ≠ i) :
    b'.code[i]? = b.code[i]? := by
  unfold writeTarget at h
  split at h
  · injection h with h
    rw [← h]
    exact getElem?_modify_ne _ _ hNe
  · injection h with h
    rw [← h]
  split_ifs at h
  · injection h with h
    rw [← h]
    rfl
  · injection h with h
    rw [← h]
    exact getElem?_modify_ne _ _ hNe

theorem writeTarget_keeps {p : Patch} (h : b.writeTarget p t = .ok b') :
    b'.boundAt = b.boundAt ∧ b'.code.length = b.code.length := by
  unfold writeTarget at h
  split at h
  · injection h with h
    rw [← h]
    exact ⟨rfl, length_modify _ _ _⟩
  · injection h with h
    rw [← h]
    exact ⟨rfl, rfl⟩
  split_ifs at h
  · injection h with h
    rw [← h]
    exact ⟨rfl, rfl⟩
  · injection h with h
    rw [← h]
    exact ⟨rfl, length_modify _ _ _⟩

theorem resolvePatches_keeps (h : b.resolvePatches ps = (b', none)) :
    b'.boundAt = b.boundAt ∧ b'.code.length = b.code.length := by
  induction ps generalizing b with
  | nil =>
    injection h with h
    rw [h]
    exact ⟨rfl, rfl⟩
  | cons p ps ih =>
    obtain ⟨b₁, hOk, hRest⟩ := resolvePatches_cons h
    obtain ⟨t, -, -, hWrite⟩ := applyPatch_ok hOk
    obtain ⟨hBound, hLength⟩ := ih hRest
    obtain ⟨hBound₁, hLength₁⟩ := writeTarget_keeps hWrite
    exact ⟨hBound.trans hBound₁, hLength.trans hLength₁⟩

theorem resolvePatches_read (h : b.resolvePatches ps = (b', none)) (hNe : ∀ p ∈ ps, p.pc ≠ i) :
    b'.code[i]? = b.code[i]? := by
  induction ps generalizing b with
  | nil =>
    injection h with h
    rw [h]
  | cons p ps ih =>
    obtain ⟨b₁, hOk, hRest⟩ := resolvePatches_cons h
    obtain ⟨t, -, -, hWrite⟩ := applyPatch_ok hOk
    rw [ih hRest fun q hq => hNe q (mem_cons_of_mem _ hq),
      writeTarget_read hWrite (hNe p mem_cons_self)]

theorem resolvePatches_patched {qs : List Patch} {pc l : Nat}
    (h : b.resolvePatches (ps ++ ⟨pc, l, none⟩ :: qs) = (b', none)) (hPs : ∀ p ∈ ps, p.pc ≠ pc)
    (hQs : ∀ p ∈ qs, p.pc ≠ pc) (hRead : b.code[pc]? = some ins) :
    ∃ t, b.boundAt[l]? = some (.at t) ∧ t < b'.code.length ∧
      b'.code[pc]? = some { ins with imm := BitVec.ofNat 32 t } := by
  obtain ⟨b₁, hFirst, hRest⟩ := resolvePatches_append h
  obtain ⟨b₂, hOk, hLast⟩ := resolvePatches_cons hRest
  obtain ⟨t, hAt, hIn, rfl⟩ := applyPatch_branch hOk
  refine ⟨t, (resolvePatches_keeps hFirst).1 ▸ hAt, ?_, ?_⟩
  · rw [(resolvePatches_keeps hLast).2, setImm, length_modify]
    exact hIn
  · rw [resolvePatches_read hLast hQs, setImm, getElem?_modify_eq,
      resolvePatches_read hFirst hPs, hRead]
    rfl

/-- The builder right before its labels are resolved. -/
theorem Published.resolved (h : Published b m) :
    ∃ c d, Grows b c ∧ c.resolvePatches c.patches = (d, none) ∧ d.publishError = none ∧
      m = d.method := by
  obtain ⟨calls, L, out, fin, hCalls, hFinish⟩ := h.finished
  refine ⟨(runFrom calls (b, L)).1, fin, grows_runFrom hCalls b L, ?_⟩
  rcases finish_cases (runFrom calls (b, L)).1 out with ⟨hFail, -⟩ | ⟨d, -, hRun, hChecks, hEq⟩
  · rw [hFinish] at hFail
    cases hFail
  · rw [hFinish] at hEq
    cases hEq
    exact ⟨hRun, hChecks, rfl⟩

theorem Published.numRegs_le (h : Published b m) : m.numRegs ≤ 65536 := by
  obtain ⟨c, d, -, -, hChecks, rfl⟩ := h.resolved
  show d.numRegs.toNat ≤ 65536
  unfold publishError at hChecks
  simp only [Option.or_eq_none_iff] at hChecks
  have hRegs := hChecks.2.1
  split_ifs at hRegs
  omega

/-- An instruction without a label is published as it was emitted. -/
theorem Published.plain (h : Published c m) (hGrows : Grows (b.rawEmit ins) c) (hTidy : b.Tidy) :
    m.code[b.code.length]? = some ins := by
  obtain ⟨c', d, hLate, hRun, -, rfl⟩ := h.resolved
  have hRead : (b.rawEmit ins).code[b.code.length]? = some ins := List.getElem?_concat_length
  have hIn : b.code.length < (b.rawEmit ins).code.length := (List.getElem?_eq_some_iff.mp hRead).1
  have hNone := (hGrows.trans hLate).no_patch hIn fun p hp => Nat.ne_of_lt (hTidy p hp)
  exact (resolvePatches_read hRun hNone).trans ((hGrows.trans hLate).getElem? hRead)

theorem Published.branch (h : Published c m) {l : Nat} (hTidy : b.Tidy)
    (hGrows : Grows (b.emitPatched ins [l]) b') (hAt : b'.boundAt[l]? = some (.at t))
    (hLater : Grows b' c) : m.code[b.code.length]? = some { ins with imm := BitVec.ofNat 32 t } ∧
      (BitVec.ofNat 32 t).toNat = t := by
  have hFits := h.fits
  obtain ⟨c', d, hLate, hRun, -, rfl⟩ := h.resolved
  have hRead : (b.emitPatched ins [l]).code[b.code.length]? = some ins :=
    getElem?_concat_length
  have hIn : b.code.length < (b.emitPatched ins [l]).code.length :=
    (List.getElem?_eq_some_iff.mp hRead).1
  have hAll := hGrows.trans (hLater.trans hLate)
  obtain ⟨new, hNew, hPlace⟩ := hAll.patches
  have hSplit : c'.patches = b.patches ++ ⟨b.code.length, l, none⟩ :: new :=
    hNew.trans (append_assoc _ _ _)
  rw [hSplit] at hRun
  obtain ⟨t', hAt', hIn', hCode⟩ := resolvePatches_patched hRun
    (fun p hp => Nat.ne_of_lt (hTidy p hp))
    (fun p hp => Nat.ne_of_gt (Nat.lt_of_lt_of_le hIn (hPlace p hp).1)) (hAll.getElem? hRead)
  have hSame : t' = t := by
    rcases (hLater.trans hLate).bound l t hAt with hBound | hBound
    all_goals
      rw [hBound] at hAt'
      cases hAt'
    rfl
  rw [← hSame]
  exact ⟨hCode, Nat.mod_eq_of_lt (Nat.lt_of_lt_of_le hIn' hFits)⟩

end B2Compiler.Rbc.RbcBuilder
