import B2Compiler.Rbc.MethodFinish

/-!
# What a finished method is worth

Whatever the order of the calls, `finish` fails and leaves the output alone, or every branch
and every switch leads where its labels were bound, and no two switches share a table.  A
constant is the one asked for with one exception: a request for a table can be answered with
the table of a switch, which still has zeros for the targets and changes when it is resolved.
-/

namespace B2Compiler.Rbc.RbcBuilder

open List BitVec Nat RbcBuilder

variable {b b' : RbcBuilder} {L : Ledger}

/-! ## Runs -/

theorem cp_le_writeTarget {p : Patch} {t : Nat} (h : b.writeTarget p t = .ok b') :
    b'.cp.length = b.cp.length := by
  unfold writeTarget at h
  split at h
  · injection h with h
    rw [← h]
    rfl
  · injection h with h
    rw [← h]
  split_ifs at h
  · injection h with h
    rw [← h]
    exact length_modify _ _ _
  · injection h with h
    rw [← h]
    rfl

theorem cp_length_resolvePatches (b : RbcBuilder) (ps : List Patch) :
    (b.resolvePatches ps).1.cp.length = b.cp.length := by
  induction ps generalizing b with
  | nil => rfl
  | cons p ps ih =>
    rw [resolvePatches]
    rcases hOk : b.applyPatch p with e | b₁
    · rfl
    · obtain ⟨t, -, -, hWrite⟩ := applyPatch_ok hOk
      exact (ih b₁).trans (cp_le_writeTarget hWrite)

theorem cp_length_finish (b : RbcBuilder) (out : Method) :
    (b.finish out).1.cp.length = b.cp.length := by
  have hResolved := cp_length_resolvePatches b b.patches
  unfold finish
  split_ifs
  · rfl
  split
  · rfl
  split
  · rename_i b' e hRun
    rw [hRun] at hResolved
    exact hResolved
  · rename_i b' hRun
    rw [hRun] at hResolved
    split <;> exact hResolved

theorem cp_le_internConst (b : RbcBuilder) (c : Const) :
    b.cp.length ≤ (b.internConst c).1.cp.length := by
  rcases internConst_spec b c with ⟨-, -, -, hSame⟩ | ⟨-, hNew⟩
  · exact Nat.le_of_eq (by rw [hSame])
  · rw [hNew]
    exact Nat.le_trans (Nat.le_add_right _ _) (Nat.le_of_eq length_append.symm)

theorem cp_le_bind (b : RbcBuilder) (l : Nat) : b.cp.length ≤ (b.bind l).cp.length := by
  rcases hRead : b.boundAt[l]? with _ | x
  · exact Nat.le_of_eq (by rw [RbcBuilder.bind, hRead])
  · exact Nat.le_of_eq (by rw [bind_eq b l hRead])

theorem cp_le_step (b : RbcBuilder) (L : Ledger) (c : Call) :
    b.cp.length ≤ (b.step L c).1.cp.length := by
  cases c with
  | constInt | constLong | constFloat | constDouble | constString | constClass | constFieldRef
  | constMethodRef | constSwitch => exact cp_le_internConst b _
  | emitSwitch op a payload targets =>
    show b.cp.length ≤ (b.emitSwitch op a payload targets).cp.length
    rw [emitSwitch]
    split_ifs
    · exact Nat.le_refl _
    · exact Nat.le_trans (Nat.le_add_right _ _) (Nat.le_of_eq length_append.symm)
  | bind l => exact cp_le_bind b l
  | finish out => exact Nat.le_of_eq (cp_length_finish b out).symm
  | _ => exact Nat.le_refl _

theorem cp_le_runFrom (calls : List Call) (b : RbcBuilder) (L : Ledger) :
    b.cp.length ≤ (runFrom calls (b, L)).1.cp.length := by
  induction calls generalizing b L with
  | nil => exact Nat.le_refl _
  | cons c cs ih => exact Nat.le_trans (cp_le_step b L c) (ih _ _)

theorem Tracks.step (h : Tracks b L) (c : Call) (hPool : (b.step L c).1.cp.length ≤ 2 ^ 32) :
    Tracks (b.step L c).1 (b.step L c).2 := by
  cases c with
  | setRegs n => exact h.resize n b.numLocals
  | setLocals n => exact h.resize b.numRegs n
  | newReg => exact h.resize (b.numRegs + 1) b.numLocals
  | constInt | constLong | constFloat | constDouble | constString | constClass | constFieldRef
  | constMethodRef | constSwitch => exact h.noteConst _
  | emitBranch | emitRegBranch | emitRegRegBranch => exact h.emitPatched _ _
  | emitSwitch op a payload targets =>
    by_cases hOp : isSwitchOp op = true
    · apply h.emitSwitch
      have hLength : (b.emitSwitch op a payload targets).cp.length = b.cp.length + 1 := by
        rw [RbcBuilder.emitSwitch, hOp]
        exact length_append
      have hBound : (b.emitSwitch op a payload targets).cp.length ≤ 2 ^ 32 := hPool
      omega
    · rw [Bool.not_eq_true] at hOp
      show Tracks (b.emitSwitch op a payload targets) (L.noteSite _)
      rw [RbcBuilder.emitSwitch, hOp]
      exact h.emitPatched _ targets
  | newLabel | handlerLabel => exact h.newLabel
  | bind l => exact h.bind l
  | addHandler start stop handler catchTypeCp =>
    refine ⟨h.patches, h.ordered, h.holds, h.bound, h.unknown, h.serves, h.borrowed, ?_, h.proper⟩
    show b.handlers ++ _ = L.handlers ++ _
    rw [h.handlers]
  | finish out => exact h.finish out
  | _ => exact h.rawEmit _

theorem Tracks.runFrom (h : Tracks b L) (calls : List Call)
    (hPool : (runFrom calls (b, L)).1.cp.length ≤ 2 ^ 32) :
    Tracks (runFrom calls (b, L)).1 (runFrom calls (b, L)).2 := by
  induction calls generalizing b L with
  | nil => exact h
  | cons c cs ih =>
    have hStep : (b.step L c).1.cp.length ≤ 2 ^ 32 :=
      Nat.le_trans (cp_le_runFrom cs _ _) hPool
    exact ih (h.step c hStep) hPool

/-- Every run keeps the builder in step with the ledger. -/
theorem tracks_run (name descriptor : String) (flags : BitVec 16) (calls : List Call)
    (hPool : (run name descriptor flags calls).1.cp.length ≤ 2 ^ 32) :
    Tracks (run name descriptor flags calls).1 (run name descriptor flags calls).2 := by
  refine Tracks.runFrom ⟨rfl, List.Pairwise.nil, ?_, ?_, ?_, ?_, ?_, rfl, ?_⟩ calls hPool
  · exact fun s hs => absurd hs not_mem_nil
  · exact fun l x hx => by cases hx
  · exact fun l _ => rfl
  · exact fun r hr => absurd hr not_mem_nil
  · exact fun p hp => absurd hp not_mem_nil
  · exact fun _ s hs => absurd hs not_mem_nil

/-- The labels that are patched were bound once. -/
def SitePlaced (b : RbcBuilder) (L : Ledger) : Site → Prop
  | .branch _ labels => ∀ l ∈ labels, Placed b L l
  | .switch _ _ _ payload targets => ∀ p ∈ switchPairs payload targets, Placed b L p.2

theorem Tracks.resolve_site (h : Tracks b L) {s : Site} (hs : s ∈ L.sites)
    (hRun : b.resolvePatches s.patches = (b', none)) : SitePlaced b L s ∧ Resolved b' L s := by
  cases s with
  | branch pc labels => exact h.resolve_branch hs (fun _ hl => hl) hRun
  | switch pc k op payload targets =>
    obtain ⟨-, -, -, ts, hLength, hEntry⟩ := h.holds _ hs
    exact h.resolve_switch hs (nil_append _).symm hLength hEntry hRun

theorem Resolved.frame {s s' : Site} (h : Resolved b L s') (hHolds : b.Holds s')
    (hF : Frame s b b') (hPc : s'.pc ≠ s.pc)
    (hTable : ∀ k, s'.table? = some k → s.table? ≠ some k) :
    Resolved b' L s' := by
  cases s' with
  | branch pc labels =>
    intro l hl
    obtain ⟨ins, hIns, hImm⟩ := h l hl
    exact ⟨ins, by rw [hF.code pc hPc]; exact hIns, hImm⟩
  | switch pc k op payload targets =>
    show b'.cp[k]? = _
    rw [hF.cp k (hTable k rfl)]
    exact h

theorem SitePlaced.of_length {s : Site} (h : SitePlaced b L s)
    (hLength : b'.code.length = b.code.length) : SitePlaced b' L s := by
  have hPlaced : ∀ l, Placed b L l → Placed b' L l :=
    fun l ⟨t, hIn, hPosition⟩ => ⟨t, hLength ▸ hIn, hPosition⟩
  cases s with
  | branch pc labels => exact fun l hl => hPlaced l (h l hl)
  | switch pc k op payload targets => exact fun p hp => hPlaced p.2 (h p hp)

theorem Tracks.resolve_sites {done rest : List Site} (h : Tracks b L)
    (hSites : L.sites = done ++ rest) (hDone : ∀ s ∈ done, SitePlaced b L s ∧ Resolved b L s)
    (hRun : b.resolvePatches (rest.flatMap Site.patches) = (b', none)) :
    Tracks b' L ∧ ∀ s ∈ L.sites, SitePlaced b' L s ∧ Resolved b' L s := by
  induction rest generalizing b done with
  | nil =>
    injection hRun with hRun
    subst hRun
    rw [append_nil] at hSites
    rw [hSites]
    exact ⟨h, hDone⟩
  | cons s rest ih =>
    rw [flatMap_cons] at hRun
    obtain ⟨b₁, hHere, hRest⟩ := resolvePatches_append hRun
    have hs : s ∈ L.sites := by
      rw [hSites]
      exact mem_append_right _ mem_cons_self
    obtain ⟨h₁, hF⟩ := h.resolve_frame hs (fun _ hp => hp) hHere
    obtain ⟨hPlaced, hResolved⟩ := h.resolve_site hs hHere
    have hSplit : L.sites = (done ++ [s]) ++ rest := by
      rw [hSites]
      simp
    refine ih h₁ hSplit ?_ hRest
    intro s' hs'
    rcases mem_append.mp hs' with hOld | hLast
    · have hMem : s' ∈ L.sites := by
        rw [hSites]
        exact mem_append_left _ hOld
      have hNe : s' ≠ s := by
        rintro rfl
        have hOrdered := h.ordered
        rw [hSites, pairwise_append] at hOrdered
        exact (hOrdered.2.2 s' hOld s' mem_cons_self).1 rfl
      obtain ⟨hPc, hTable⟩ := h.apart hMem hs hNe
      obtain ⟨hPlaced', hResolved'⟩ := hDone s' hOld
      exact ⟨hPlaced'.of_length hF.codeLength, hResolved'.frame (h.holds s' hMem) hF hPc hTable⟩
    · rw [mem_singleton.mp hLast]
      exact ⟨hPlaced.of_length hF.codeLength, hResolved⟩

/-! ## The finished method -/

structure Correct (L : Ledger) (m : Method) : Prop where
  /-- Every label in use was bound once, at an instruction. -/
  labels : ∀ s ∈ L.sites, ∀ l ∈ s.labels, ∃ t < m.code.length, L.positions l = [t]
  /-- A branch leads there; one with several labels, which is a misuse, to the last of them. -/
  branches : ∀ pc labels l, .branch pc labels ∈ L.sites → labels.getLast? = some l →
    ∃ ins, m.code[pc]? = some ins ∧ ins.immIdx = L.place l
  /-- A switch has its own cases, and leads there or behind itself. -/
  switches : ∀ pc k op payload targets, .switch pc k op payload targets ∈ L.sites →
    (Site.switch pc k op payload targets).Proper ∧ ∃ ins, m.code[pc]? = some ins ∧ ins.op = op ∧
      m.cp[ins.immIdx]? = some (tableConst (L.tableOf (.switch pc k op payload targets)))
  /-- Two switches have two tables. -/
  separate : L.sites.Pairwise fun s s' => s.table? ≠ none → s'.table? ≠ none →
    ∀ ins ins', m.code[s.pc]? = some ins → m.code[s'.pc]? = some ins' → ins.immIdx ≠ ins'.immIdx
  constants : ∀ r ∈ L.requests, ∃ d, m.cp[r.1]? = some d ∧ sameConst d r.2 = true
  handlers : m.handlers = L.handlers ∧ ∀ h ∈ L.handlers,
    h.start < h.stop ∧ h.stop ≤ m.code.length ∧ h.handler < m.code.length

/-- A request answered with the table of a switch is one for that table with its labels in
place. -/
def Ledger.Fair (L : Ledger) : Prop := ∀ p ∈ L.borrowed, p.1.ints = L.tableOf p.2

/-- Indices fit in 32 bits. -/
def Fits (b : RbcBuilder) : Prop := b.code.length ≤ 2 ^ 32 ∧ b.cp.length ≤ 2 ^ 32

instance (b : RbcBuilder) : Decidable (Fits b) := inferInstanceAs (Decidable (_ ∧ _))

/-- With as many targets as matches no target is lost. -/
theorem mem_switchPairs_of_mem {payload : List (BitVec 32)} {targets : List Nat} {l : Nat}
    (hLength : payload.length = targets.length) (hl : l ∈ targets) :
    ∃ p ∈ switchPairs payload targets, p.2 = l := by
  have hMap : (payload.zip targets).map Prod.snd = targets :=
    map_snd_zip (Nat.le_of_eq hLength.symm)
  rw [← hMap] at hl
  obtain ⟨p, hp, rfl⟩ := mem_map.mp hl
  exact ⟨p, mem_mergeSort.mpr hp, rfl⟩

theorem sameConst_table {ints : List (BitVec 32)} {c : Const} (hKind : c.kind = .switchTable) :
    sameConst (tableConst ints) c = true ↔ c.ints = ints := by
  have hTable : (tableConst ints).kind = .switchTable := rfl
  have hInts : (tableConst ints).ints = ints := rfl
  simp only [sameConst, hTable, hKind, hInts, ne_eq, not_true_eq_false, if_false, beq_iff_eq]
  exact eq_comm

theorem Tracks.resolve_keeps {ps : List Patch} (h : Tracks b L)
    (hPs : ∀ p ∈ ps, ∃ s ∈ L.sites, p ∈ s.patches) (hRun : b.resolvePatches ps = (b', none)) :
    b'.code.length = b.code.length ∧ b'.pendingError = b.pendingError := by
  induction ps generalizing b with
  | nil =>
    injection hRun with hRun
    rw [hRun]
    exact ⟨rfl, rfl⟩
  | cons p ps ih =>
    obtain ⟨b₁, hPatch, hRest⟩ := resolvePatches_cons hRun
    obtain ⟨s, hs, hp⟩ := hPs p mem_cons_self
    obtain ⟨h₁, hF⟩ := h.applyPatch hs hp hPatch
    obtain ⟨hCode, hNone⟩ := ih h₁ (fun q hq => hPs q (mem_cons_of_mem _ hq)) hRest
    exact ⟨hCode.trans hF.codeLength, hNone.trans hF.pendingError⟩

/-- A failed `finish` leaves the output alone; one that does not fail has applied every patch
and passed the checks. -/
theorem finish_cases (b : RbcBuilder) (out : Method) :
    ((b.finish out).2.1.ok = false ∧ (b.finish out).2.2 = out) ∨
      ∃ b', b.pendingError = "" ∧ b.resolvePatches b.patches = (b', none) ∧
        b'.publishError = none ∧ b.finish out = (b', ⟨true, ""⟩, b'.method) := by
  unfold finish
  by_cases hError : b.pendingError ≠ ""
  · rw [if_pos hError]
    exact .inl ⟨rfl, rfl⟩
  rw [if_neg hError]
  split
  · exact .inl ⟨rfl, rfl⟩
  split
  · exact .inl ⟨rfl, rfl⟩
  · rename_i b' hRun
    split
    · exact .inl ⟨rfl, rfl⟩
    · rename_i hChecks
      exact .inr ⟨b', not_not.mp hError, hRun, hChecks, rfl⟩

theorem publishError_handlers (h : b.publishError = none) :
    ∀ hd ∈ b.handlers, hd.start < hd.stop ∧ hd.stop ≤ b.code.length ∧
      hd.handler < b.code.length := by
  intro hd hMem
  unfold publishError at h
  simp only [Option.or_eq_none_iff, findSome?_eq_none_iff] at h
  have hNone := h.2.2.2 hd hMem
  unfold handlerError at hNone
  split_ifs at hNone with hRange hEntry
  all_goals omega

/-- All that a finished method has, whatever was borrowed. -/
theorem Tracks.correct_but_constants (h : Tracks b L) (hError : b.pendingError = "")
    (hChecks : b.publishError = none) (hFits : b.code.length ≤ 2 ^ 32)
    (hAll : ∀ s ∈ L.sites, SitePlaced b L s ∧ Resolved b L s)
    (hConstants : ∀ r ∈ L.requests, ∃ d, b.cp[r.1]? = some d ∧ sameConst d r.2 = true) :
    Correct L b.method where
  labels := by
    intro s hs l hl
    have hProper := h.proper hError s hs
    obtain ⟨hPlaced, -⟩ := hAll s hs
    cases s with
    | branch pc labels => exact hPlaced l hl
    | switch pc k op payload targets =>
      obtain ⟨p, hp, rfl⟩ := mem_switchPairs_of_mem hProper.1 hl
      exact hPlaced p hp
  branches := by
    intro pc labels l hs hLast
    obtain ⟨hPlaced, hResolved⟩ := hAll _ hs
    obtain ⟨ins, hIns, hImm⟩ := hResolved l hLast
    obtain ⟨t, hIn, hPosition⟩ := hPlaced l (mem_of_getLast? hLast)
    refine ⟨ins, hIns, ?_⟩
    have hPlace : L.place l = t := by
      rw [Ledger.place, hPosition]
      rfl
    rw [Ins.immIdx, hImm, BitVec.toNat_ofNat, hPlace]
    exact Nat.mod_eq_of_lt (Nat.lt_of_lt_of_le hIn hFits)
  switches := by
    intro pc k op payload targets hs
    obtain ⟨-, hk, ⟨ins, hIns, hOp, hImm⟩, -⟩ := h.holds _ hs
    refine ⟨h.proper hError _ hs, ins, hIns, hOp, ?_⟩
    rw [Ins.immIdx, hImm, toNat_ofNat, mod_eq_of_lt hk]
    exact (hAll _ hs).2
  separate := by
    refine h.ordered.imp_of_mem ?_
    intro s s' hs hs' hApart hTable hTable' ins ins' hIns hIns'
    cases s with
    | branch => exact absurd rfl hTable
    | switch pc k op payload targets =>
      cases s' with
      | branch => exact absurd rfl hTable'
      | switch pc' k' op' payload' targets' =>
        obtain ⟨-, hk, ⟨i, hi, -, hImm⟩, -⟩ := h.holds _ hs
        obtain ⟨-, hk', ⟨i', hi', -, hImm'⟩, -⟩ := h.holds _ hs'
        have hSame : i = ins := Option.some.inj (hi.symm.trans hIns)
        have hSame' : i' = ins' := Option.some.inj (hi'.symm.trans hIns')
        rw [Ins.immIdx, Ins.immIdx, ← hSame, ← hSame', hImm, hImm', toNat_ofNat,
          toNat_ofNat, mod_eq_of_lt hk, mod_eq_of_lt hk']
        rintro rfl
        exact hApart.2 k rfl rfl
  constants := hConstants
  handlers := by
    refine ⟨h.handlers, ?_⟩
    rw [← h.handlers]
    exact publishError_handlers hChecks

/-- With everything resolved the constants are as asked for exactly when nothing wrong was
borrowed. -/
theorem Tracks.constants_iff (h : Tracks b L)
    (hAll : ∀ s ∈ L.sites, SitePlaced b L s ∧ Resolved b L s) :
    (∀ r ∈ L.requests, ∃ d, b.cp[r.1]? = some d ∧ sameConst d r.2 = true) ↔ L.Fair := by
  have hEntry : ∀ s ∈ L.sites, ∀ k, s.table? = some k →
      b.cp[k]? = some (tableConst (L.tableOf s)) := by
    intro s hs k hk
    have hResolved := (hAll s hs).2
    cases s with
    | branch => cases hk
    | switch pc k' op payload targets =>
      injection hk with hk
      subst hk
      exact hResolved
  constructor
  · rintro hConstants ⟨c, s⟩ hp
    obtain ⟨hKind, hs, k, hk, hRequest⟩ := h.borrowed _ hp
    obtain ⟨d, hRead, hSame⟩ := hConstants _ hRequest
    have hRead' := hEntry s hs k hk
    rw [hRead] at hRead'
    rw [Option.some.inj hRead'] at hSame
    exact (sameConst_table hKind).mp hSame
  · intro hFair r hr
    rcases h.serves r hr with ⟨d, hRead, hSame, -⟩ | ⟨s, hs, hk, hNoted⟩
    · exact ⟨d, hRead, hSame⟩
    · refine ⟨_, hEntry s hs _ hk, ?_⟩
      exact (sameConst_table (h.borrowed _ hNoted).1).mpr (hFair _ hNoted)

/-- `finish` fails and leaves the output alone, or it publishes what the callers asked for;
the latter exactly when every table that was borrowed is the one asked for. -/
theorem finish_correct_iff (name descriptor : String) (flags : BitVec 16) (calls : List Call)
    (out : Method) (hFits : Fits (run name descriptor flags calls).1) :
    let s := run name descriptor flags calls
    ((s.1.finish out).2.1.ok = false → (s.1.finish out).2.2 = out) ∧
      ((s.1.finish out).2.1.ok = true → (Correct s.2 (s.1.finish out).2.2 ↔ s.2.Fair)) := by
  intro s
  have hTracks : Tracks s.1 s.2 := tracks_run name descriptor flags calls hFits.2
  rcases finish_cases s.1 out with ⟨hFail, hOut⟩ | ⟨b', hError, hRun, hChecks, hEq⟩
  · rw [hFail]
    exact ⟨fun _ => hOut, fun hTrue => by cases hTrue⟩
  rw [hEq]
  constructor
  · intro hFalse
    cases hFalse
  intro _
  have hOwn : ∀ p ∈ s.1.patches, ∃ site ∈ s.2.sites, p ∈ site.patches := by
    rw [hTracks.patches]
    exact fun p hp => mem_flatMap.mp hp
  obtain ⟨hCode, hNone⟩ := hTracks.resolve_keeps hOwn hRun
  rw [hTracks.patches] at hRun
  obtain ⟨hTracks', hAll⟩ := hTracks.resolve_sites (nil_append _).symm
    (fun site hSite => absurd hSite not_mem_nil) hRun
  rw [← hTracks'.constants_iff hAll]
  constructor
  · exact fun hCorrect => hCorrect.constants
  · exact hTracks'.correct_but_constants (hNone.trans hError) hChecks (hCode ▸ hFits.1) hAll

/-! ### A table that was borrowed -/

/-- A table is asked for that looks like that of a switch before its label is in place. -/
def borrowing : List Call :=
  [.newLabel, .emitSwitch .lookupswitch 0 [5] [0], .emit .nop, .bind 0, .emit .returnVoid,
    .constSwitch [1, 1, 5, 0], .setRegs 1]

/-- The request is answered with the table of the switch, whose target then becomes 2. -/
theorem borrowing_not_correct : ((run "main" "()V" 0 borrowing).1.finish {}).2.1.ok = true ∧
      ¬Correct (run "main" "()V" 0 borrowing).2
        ((run "main" "()V" 0 borrowing).1.finish {}).2.2 := by
  have hRun : ((run "main" "()V" 0 borrowing).1.finish {}).2.1.ok = true ∧
      (0, tableConst [1, 1, 5, 0]) ∈ (run "main" "()V" 0 borrowing).2.requests ∧
      ((run "main" "()V" 0 borrowing).1.finish {}).2.2.cp = [tableConst [1, 1, 5, 2]] := by
    decide +kernel
  obtain ⟨hOk, hRequest, hPool⟩ := hRun
  refine ⟨hOk, fun hCorrect => ?_⟩
  obtain ⟨d, hRead, hSame⟩ := hCorrect.constants _ hRequest
  rw [hPool] at hRead
  injection hRead with hRead
  rw [← hRead] at hSame
  exact absurd hSame (by decide)

/-- Asked for with its label in place the table is a new entry. -/
def asking : List Call :=
  [.newLabel, .emitSwitch .lookupswitch 0 [5] [0], .emit .nop, .bind 0, .emit .returnVoid,
    .constSwitch [1, 1, 5, 2], .setRegs 1]

theorem asking_correct :
    Correct (run "main" "()V" 0 asking).2 ((run "main" "()V" 0 asking).1.finish {}).2.2 := by
  have hRun : Fits (run "main" "()V" 0 asking).1 ∧
      ((run "main" "()V" 0 asking).1.finish {}).2.1.ok = true ∧
      (run "main" "()V" 0 asking).2.borrowed = [] := by
    decide +kernel
  obtain ⟨hFits, hOk, hNone⟩ := hRun
  apply ((finish_correct_iff "main" "()V" 0 asking {} hFits).2 hOk).mpr
  intro p hp
  rw [hNone] at hp
  exact absurd hp not_mem_nil

end B2Compiler.Rbc.RbcBuilder
