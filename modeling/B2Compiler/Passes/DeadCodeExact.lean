import B2Compiler.Ir.VerifiedGraph
import B2Compiler.Passes.DeadCode

/-!
# What dead code elimination keeps and what it leaves

A run keeps every node a remaining node refers to, everything a deoptimization can
reconstruct and all of control.  When it has converged, each removable node it leaves is
referred to: by a live node, or by a tombstone.  A tombstone of this run holds only typed
zeros and operands whose type has no zero.

Use counts do not see through cycles, and they count tombstones: a dead phi that carries
itself around its loop stays, and so does a tagged value whose only reader was removed.
-/

namespace B2Compiler.Passes

open Ir List Nat Store

/-! ## Frames -/

/-- A descriptor and the one it names as its caller. -/
def CallerOf (g : Store) (d c : BitVec 32) : Prop :=
  ∃ desc, g.fsDesc[d.toNat]? = some desc ∧ desc.caller = c

/-- A frame state that is no tombstone. -/
def LiveFrame (g : Store) (f : NodeId) : Prop :=
  f < g.nodes.length ∧ (g.node f).isDead = false ∧ (g.node f).kind = .frameState

/-- The live frame state `f'` holds a frame of the caller chain of `f`. -/
def InCallerChain (g : Store) (f f' : NodeId) : Prop :=
  LiveFrame g f' ∧ Relation.TransGen (CallerOf g) (g.node f).payload (g.node f').payload

/-- A deoptimization at `f` reads the node: a slot or a virtual object of its frame or of
a frame of its caller chain. -/
def Reconstructs (g : Store) (f a : NodeId) : Prop :=
  ∃ f', (f' = f ∨ InCallerChain g f f') ∧
    (a ∈ g.inputs f' ∨ a ∈ g.frameStateVobjs (g.node f').payload.toNat)

theorem isCallerChained_of_callerOf {g : Store} {d c : BitVec 32} (h : CallerOf g d c) :
    isCallerChained g c = true := by
  obtain ⟨desc, hDesc, rfl⟩ := h
  rw [isCallerChained, any_eq_true]
  exact ⟨desc, mem_of_getElem? hDesc, beq_self_eq_true _⟩

theorem InCallerChain.not_removable {g : Store} {f f' : NodeId} (h : InCallerChain g f f') :
    ¬Removable g f' := by
  rintro ⟨-, -, -, -, hFree⟩
  obtain ⟨⟨-, -, hKind⟩, hChain⟩ := h
  obtain ⟨d, -, hLast⟩ := Relation.TransGen.tail'_iff.mp hChain
  exact hFree ⟨hKind, isCallerChained_of_callerOf hLast⟩

theorem not_removable_of_virtual {g : Store} {v : NodeId}
    (hKind : (g.node v).kind = .virtualObjectState) : ¬Removable g v := by
  rintro ⟨-, -, hSafe, -⟩
  rw [hKind] at hSafe
  cases hSafe

/-! ## The run -/

/-- The node is as it was: its record, its operands, and its value at the end of every
path. -/
structure Unchanged (g g' : Store) (n : NodeId) : Prop where
  live : g'.Live n
  record : g'.node n = g.node n
  inputs : g'.inputs n = g.inputs n
  value : ∀ W fuel path, g'.eval W fuel path n = g.eval W fuel path n

section

variable {g : Store} {s s' : PassRun}

theorem Trimmed.agreeOn (hTidy : Tidy s) (h : Trimmed s.g s') :
    Store.AgreeOn (fun m => m < s.g.nodes.length ∧ s'.g.Live m) s.g s'.g := by
  have hKept : ∀ m, m < s.g.nodes.length ∧ s'.g.Live m →
      s'.g.node m = s.g.node m ∧ s'.g.inputs m = s.g.inputs m := by
    rintro m ⟨hLt, hLive⟩
    exact h.kept m hLt fun hGone => hGone.not_live h hLive
  constructor
  · exact fun m hm => hm.1
  · exact h.length
  · exact fun m hm => (hKept m hm).1
  · exact fun m hm => (hKept m hm).2
  · intro m a hm ha
    obtain ⟨i, hi⟩ := getElem?_of_mem ha
    refine ⟨hTidy.uses.closed m i a hi, h.closed m a hm.2 ?_⟩
    rw [(hKept m hm).2]
    exact ha

variable {n : NodeId}

/-- A live node is as it was, or it was removable and nothing that stays refers to it. -/
theorem Trimmed.unchanged_or (hTidy : Tidy s) (h : Trimmed s.g s') (hLive : s.g.Live n) :
    Unchanged s.g s'.g n ∨
      (¬s'.g.Live n ∧ Removable s.g n ∧ ∀ m, s'.g.Live m → n ∉ s'.g.inputs m) := by
  have hLt := hTidy.lt hLive
  by_cases hStays : s'.g.Live n
  · have hAgree := h.agreeOn hTidy
    exact .inl ⟨hStays, hAgree.node n ⟨hLt, hStays⟩, hAgree.inputs n ⟨hLt, hStays⟩,
      fun W fuel path => hAgree.eval W fuel path ⟨hLt, hStays⟩⟩
  have hGone : Gone s.g s' n := by
    by_contra hNot
    apply hStays
    rcases hLive with hStart | ⟨-, hDead⟩
    · exact .inl hStart
    · refine .inr ⟨lt_of_lt_of_le hLt h.length, ?_⟩
      rw [(h.kept n hLt hNot).1]
      exact hDead
  refine .inr ⟨hStays, (h.removable n hGone).2 hLt, ?_⟩
  intro m hm hMem
  have hEq := h.unread n m hGone hMem
  rw [hEq] at hm
  exact hStays hm

theorem Trimmed.unchanged (hTidy : Tidy s) (h : Trimmed s.g s') (hLive : s.g.Live n)
    (hNot : ¬Removable s.g n) : Unchanged s.g s'.g n := by
  rcases h.unchanged_or hTidy hLive with hSame | ⟨-, hRemovable, -⟩
  · exact hSame
  · exact absurd hRemovable hNot

/-- The edges of control between the nodes of the first graph. -/
theorem Trimmed.ctrlEdge_iff (hTidy : Tidy s) (h : Trimmed s.g s') {c slot u : Nat}
    (hu : u < s.g.nodes.length) : s'.g.CtrlEdge c slot u ↔ s.g.CtrlEdge c slot u := by
  have hSame : ∀ {m}, m < s.g.nodes.length → s'.g.Live m → s.g.Live m := by
    intro m hm hLive
    rcases hLive with hStart | ⟨-, hDead⟩
    · exact .inl hStart
    · refine .inr ⟨hm, ?_⟩
      rw [← (h.kept m hm fun hGone => hGone.not_live h (.inr ⟨lt_of_lt_of_le hm h.length,
        hDead⟩)).1]
      exact hDead
  constructor
  · rintro ⟨hLive, hKind, hInput, hSlot⟩
    have hAgree := h.agreeOn hTidy
    rw [hAgree.node u ⟨hu, hLive⟩] at hKind hSlot
    rw [hAgree.inputs u ⟨hu, hLive⟩] at hInput
    exact ⟨hSame hu hLive, hKind, hInput, hSlot⟩
  · rintro ⟨hLive, hKind, hInput, hSlot⟩
    have hNot : ¬Removable s.g u := by
      rintro ⟨-, -, hSafe, -⟩
      rw [ctrlSlot_of_isDceSafe hSafe hKind] at hSlot
      cases hSlot
    obtain ⟨hStays, hNode, hInputs, -⟩ := h.unchanged hTidy hLive hNot
    refine ⟨hStays, ?_, ?_, ?_⟩
    · rw [hNode]
      exact hKind
    · rw [hInputs]
      exact hInput
    · rw [hNode]
      exact hSlot

theorem exists_reader (hTidy : Tidy s) (hUses : useCount s.g n ≠ 0) :
    ∃ m, m < s.g.nodes.length ∧ n ∈ s.g.inputs m := by
  obtain ⟨⟨m, i⟩, hMem⟩ := exists_mem_of_length_pos (Nat.pos_of_ne_zero hUses)
  have hCount := hTidy.uses.counts n m i
  have hPos : 0 < (s.g.usesOf n).count ⟨m, i⟩ := count_pos_iff.mpr hMem
  rw [hCount] at hPos
  have hRead : (s.g.inputs m)[i]? = some n := by
    by_contra hNot
    rw [if_neg hNot] at hPos
    exact lt_irrefl 0 hPos
  refine ⟨m, ?_, mem_of_getElem? hRead⟩
  by_contra hOut
  rw [Store.inputs, Store.node_of_le (Nat.le_of_not_lt hOut)] at hRead
  cases hRead

theorem DceConverged.referenced {fuel : Nat} (h : Trimmed s.g s') (hDone : DceConverged fuel s')
    (hIds : s'.g.nodes.length ≤ kInvalidNodeId) (hn : Removable s'.g n) : ∃ m, n ∈ s'.g.inputs m ∧
      (s'.g.Live m ∨ (m < s.g.nodes.length ∧ (s.g.node m).isDead = true) ∨
        n ∈ s'.jk.constants ∨ ∃ t, s'.g.image.typeOf n = some t ∧ hasSink t = false) := by
  obtain ⟨-, -, hStop⟩ := dceSweep_spec h hDone.2
  obtain ⟨-, hAll⟩ := hStop rfl hDone.1
  have hUses : useCount s'.g n ≠ 0 := fun hZero => hAll n (zero_le n) hn.1 ⟨hn, hZero⟩
  obtain ⟨m, hLt, hMem⟩ := exists_reader h.tidy hUses
  refine ⟨m, hMem, ?_⟩
  by_cases hAlive : (s'.g.node m).isDead = false
  · exact .inl (.inr ⟨hLt, hAlive⟩)
  rw [Bool.not_eq_false] at hAlive
  by_cases hBefore : m < s.g.nodes.length ∧ (s.g.node m).isDead = true
  · exact .inr (.inl hBefore)
  obtain ⟨-, hLive, hSafe, hStart, -⟩ := hn
  -- a tombstone of this run
  rcases h.held hIds m n ⟨hLt, hAlive, hBefore⟩ hMem with hSelf | hSink | ⟨-, hType⟩
  · rw [hSelf, hAlive] at hLive
    cases hLive
  · rcases hSink with hBad | hRegion | ⟨hConstant, -⟩
    · exact absurd hBad hStart
    · rw [(h.tidy.junk.regions n hRegion).2.1] at hSafe
      cases hSafe
    · exact .inr (.inr (.inl hConstant))
  · exact .inr (.inr (.inr hType))

theorem Trimmed.reconstructs (hTidy : Tidy s) (hAcc : s.g.Accepted) (h : Trimmed s.g s')
    {f a : NodeId} (hFrame : LiveFrame s.g f) (hStays : s'.g.Live f)
    (hRead : Reconstructs s.g f a) : Unchanged s.g s'.g a := by
  obtain ⟨f', hOwner, hRead⟩ := hRead
  have hFrame' : LiveFrame s.g f' := by
    rcases hOwner with rfl | hChain
    · exact hFrame
    · exact hChain.1
  have hLive' : s.g.Live f' := .inr ⟨hFrame'.1, hFrame'.2.1⟩
  have hStays' : s'.g.Live f' := by
    rcases hOwner with rfl | hChain
    · exact hStays
    · exact (h.unchanged hTidy hLive' hChain.not_removable).live
  rcases hRead with hSlot | hVirtual
  · obtain ⟨i, hi⟩ := getElem?_of_mem hSlot
    obtain ⟨hLt, hDead, -⟩ := input_of_accepted hAcc hFrame'.1 hi
    rcases h.unchanged_or hTidy (.inr ⟨hLt, hDead⟩) with hSame | ⟨-, -, hUnread⟩
    · exact hSame
    · refine absurd ?_ (hUnread f' hStays')
      rw [(h.agreeOn hTidy).inputs f' ⟨hFrame'.1, hStays'⟩]
      exact hSlot
  · obtain ⟨hLt, hDead, hKind⟩ :=
      vobj_of_accepted hAcc hFrame'.1 hFrame'.2.1 hFrame'.2.2 hVirtual
    exact h.unchanged hTidy (.inr ⟨hLt, hDead⟩) (not_removable_of_virtual hKind)

/-- A run on a verified graph removes only what nothing that stays refers to, and keeps
all values, all control and all that deoptimizations read.  It ends converged unless the
budget or the number of sweeps runs out, and then what is left is referred to. -/
theorem runDCE_trims {fuel : Nat} (hTidy : Tidy s) (hAcc : s.g.Accepted)
    (hRun : (runDCE fuel).run s = some ((), s')) :
    (∀ n, s.g.Live n → Unchanged s.g s'.g n ∨
      (¬s'.g.Live n ∧ Removable s.g n ∧ ∀ m, s'.g.Live m → n ∉ s'.g.inputs m)) ∧
    (∀ c slot u, u < s.g.nodes.length → (s'.g.CtrlEdge c slot u ↔ s.g.CtrlEdge c slot u)) ∧
    (s'.g.fsDesc = s.g.fsDesc ∧ s'.g.fsVobjs = s.g.fsVobjs) ∧
    (∀ f a, LiveFrame s.g f → s'.g.Live f → Reconstructs s.g f a → Unchanged s.g s'.g a) ∧
    (∀ f f', InCallerChain s.g f f' → Unchanged s.g s'.g f') ∧
    (DceConverged fuel s' ∨ s'.b.exceeded = true ∨ s.t.removals + kMaxDceSweeps ≤ s'.t.removals) ∧
    (DceConverged fuel s' → s'.g.nodes.length ≤ kInvalidNodeId → ∀ n, Removable s'.g n →
      ∃ m, n ∈ s'.g.inputs m ∧ (s'.g.Live m ∨ (m < s.g.nodes.length ∧ (s.g.node m).isDead = true) ∨
          n ∈ s'.jk.constants ∨ ∃ t, s'.g.image.typeOf n = some t ∧ hasSink t = false)) := by
  have hClosed : ∀ m a, s.g.Live m → a ∈ s.g.inputs m → s.g.Live a := by
    intro m a hm ha
    obtain ⟨i, hi⟩ := getElem?_of_mem ha
    obtain ⟨hLt, hDead, -⟩ := input_of_accepted hAcc (hTidy.lt hm) hi
    exact .inr ⟨hLt, hDead⟩
  obtain ⟨h, hEnd⟩ := dceSweeps_spec (trimmed_refl hTidy hClosed) hRun
  refine ⟨?_, ?_, h.frames, ?_, ?_, hEnd, ?_⟩
  · exact fun n hLive => h.unchanged_or hTidy hLive
  · exact fun c slot u hu => h.ctrlEdge_iff hTidy hu
  · exact fun f a hFrame hStays hRead => h.reconstructs hTidy hAcc hFrame hStays hRead
  · intro f f' hChain
    exact h.unchanged hTidy (.inr ⟨hChain.1.1, hChain.1.2.1⟩) hChain.not_removable
  · exact fun hDone hIds n hn => hDone.referenced h hIds hn

end

/-! ## Dead code that stays -/

/-- A loop with a phi nobody reads that carries itself around, and a tagged value whose
only reader nobody reads. -/
def deadLoop : List Call :=
  [.constantI 5, .make .tagValue [1] 0 7, .make .untagValue [2] 7 0, .make .loopBegin [0] 0 0,
    .make .phi [4, 1] 0 0, .make .ifNode [4, 1] 0 0, .make .ifTrue [6] 0 0,
    .make .ifFalse [6] 0 0, .make .loopEnd [7] 0 0, .make .returnNode [8] 0 0,
    .appendInput 4 9, .appendInput 5 5]

def deadLoopStart : PassRun := { g := fresh.run deadLoop, b := { limit := 200000 } }

/-- The run removes node 3 only. -/
def deadLoopEnd : PassRun :=
  ((runDCE 16).run deadLoopStart).elim deadLoopStart Prod.snd

namespace DeadLoop

theorem tidy : Tidy deadLoopStart where
  ok := ok_fresh.run deadLoop
  uses := useDef_fresh.run ok_fresh deadLoop (by decide)
  start := by decide +kernel
  junk := by
    constructor
    · intro n hn hValid
      exact absurd (eq_of_mem_replicate (n := 5) hn) hValid
    · intro n hn
      cases hn

theorem run_checks : deadLoopStart.g.Accepted ∧
    (runDCE 16).run deadLoopStart = some ((), deadLoopEnd) ∧
    deadLoopEnd.b.exceeded = false ∧
    (sweepNodes dceVisit 16 0).run deadLoopEnd = some (false, deadLoopEnd) ∧
    deadLoopEnd.g.nodes.length = 11 := by
  decide +kernel

theorem accepted : deadLoopStart.g.Accepted := run_checks.1

theorem run_eq : (runDCE 16).run deadLoopStart = some ((), deadLoopEnd) := run_checks.2.1

theorem converged : DceConverged 16 deadLoopEnd := ⟨run_checks.2.2.1, run_checks.2.2.2.1⟩

/-- No node is made, so a question about all readers is one about eleven nodes. -/
theorem reader_lt {m n : NodeId} (h : n ∈ deadLoopEnd.g.inputs m) : m < 11 := by
  by_contra hOut
  have hLe : deadLoopEnd.g.nodes.length ≤ m := by
    rw [run_checks.2.2.2.2]
    exact Nat.le_of_not_lt hOut
  rw [Store.inputs, Store.node_of_le hLe] at h
  cases h

end DeadLoop

theorem runDCE_trims_deadLoop : Unchanged deadLoopStart.g deadLoopEnd.g 10 ∧
      ∃ m, 2 ∈ deadLoopEnd.g.inputs m ∧ (deadLoopEnd.g.Live m ∨
          (m < deadLoopStart.g.nodes.length ∧ (deadLoopStart.g.node m).isDead = true) ∨
          2 ∈ deadLoopEnd.jk.constants ∨
          ∃ t, deadLoopEnd.g.image.typeOf 2 = some t ∧ hasSink t = false) := by
  have h := runDCE_trims DeadLoop.tidy DeadLoop.accepted DeadLoop.run_eq
  refine ⟨?_, ?_⟩
  · rcases h.1 10 (by decide +kernel) with hSame | ⟨hGone, -, -⟩
    · exact hSame
    · exact absurd (show deadLoopEnd.g.Live 10 by decide +kernel) hGone
  · apply h.2.2.2.2.2.2 DeadLoop.converged (by decide +kernel)
    unfold Removable
    decide +kernel

/-- A converged run leaves a removable node no live node refers to, and one that only it
itself refers to. -/
theorem not_runDCE_complete : ¬ (∀ (fuel : Nat) (s s' : PassRun), Tidy s → s.g.Accepted →
      (runDCE fuel).run s = some ((), s') → DceConverged fuel s' →
      ∀ n, Removable s'.g n → ∃ m, s'.g.Live m ∧ n ∈ s'.g.inputs m) ∧
    ¬ (∀ (fuel : Nat) (s s' : PassRun), Tidy s → s.g.Accepted →
      (runDCE fuel).run s = some ((), s') → DceConverged fuel s' →
      ∀ n, Removable s'.g n → ∃ m, m ≠ n ∧ n ∈ s'.g.inputs m) := by
  constructor
  · intro hClaim
    obtain ⟨m, hLive, hMem⟩ := hClaim 16 _ _ DeadLoop.tidy DeadLoop.accepted DeadLoop.run_eq
      DeadLoop.converged 2 (by unfold Removable; decide +kernel)
    have hNone : ∀ m < 11, deadLoopEnd.g.Live m → 2 ∉ deadLoopEnd.g.inputs m := by
      decide +kernel
    exact hNone m (DeadLoop.reader_lt hMem) hLive hMem
  · intro hClaim
    obtain ⟨m, hNe, hMem⟩ := hClaim 16 _ _ DeadLoop.tidy DeadLoop.accepted DeadLoop.run_eq
      DeadLoop.converged 5 (by unfold Removable; decide +kernel)
    have hNone : ∀ m < 11, m ≠ 5 → 5 ∉ deadLoopEnd.g.inputs m := by
      decide +kernel
    exact hNone m (DeadLoop.reader_lt hMem) hNe hMem

end B2Compiler.Passes
