import B2Compiler.Rbc.MethodLedger

/-!
# Resolving the labels

A patch writes into its own instruction, or into the table of its own switch.  So the patches
of one site leave the other sites alone, and after all of them every site has its labels in
place.
-/

namespace B2Compiler.Rbc.RbcBuilder

open List Nat RbcBuilder

variable {b b' : RbcBuilder} {L : Ledger}

theorem set_flatMap_zip (keys ts : List (BitVec 32)) (i : Nat) (v : BitVec 32) :
    ((keys.zip ts).flatMap fun p => [p.1, p.2]).set (2 * i + 1) v =
      (keys.zip (ts.set i v)).flatMap fun p => [p.1, p.2] := by
  induction keys generalizing ts i with
  | nil => rfl
  | cons key keys ih =>
    cases ts with
    | nil => rfl
    | cons t ts =>
      cases i with
      | zero => rfl
      | succ i =>
        have hSlot : 2 * (i + 1) + 1 = (2 * i + 1) + 1 + 1 := by omega
        rw [hSlot]
        show key :: t :: ((keys.zip ts).flatMap _).set (2 * i + 1) v = _
        rw [ih ts i]
        rfl

theorem switchTable_set {op : Op} {pc i : Nat} {keys ts : List (BitVec 32)} (v : BitVec 32)
    (hLength : ts.length = keys.length) (hIn : i < ts.length) :
    (switchTable op pc keys ts).set (targetSlot op i) v = switchTable op pc keys (ts.set i v) := by
  unfold switchTable targetSlot
  by_cases hOp : op = .tableswitch
  · simp only [if_pos hOp]
    obtain ⟨key, keys, rfl⟩ : ∃ key rest, keys = key :: rest := by
      cases keys with
      | nil =>
        rw [hLength] at hIn
        exact absurd hIn (not_lt_zero i)
      | cons key rest => exact ⟨key, rest, rfl⟩
    rw [head?_cons, getLast?_cons]
    have hSlot : 3 + i = i + 1 + 1 + 1 := by omega
    rw [hSlot]
    rfl
  · simp only [if_neg hOp]
    have hSlot : 3 + 2 * i = (2 * i + 1) + 1 + 1 := by omega
    rw [hSlot, ← set_flatMap_zip]
    rfl

theorem setSlot_table {k slot : Nat} {ints : List (BitVec 32)} (v : BitVec 32)
    (h : b.cp[k]? = some (tableConst ints)) :
    (b.setSlot k slot v).cp[k]? = some (tableConst (ints.set slot v)) := by
  rw [setSlot, getElem?_modify_eq, h]
  rfl

/-! ## One patch -/

/-- What the patches of a site leave alone. -/
structure Frame (s : Site) (b b' : RbcBuilder) : Prop where
  codeLength : b'.code.length = b.code.length
  code : ∀ i, i ≠ s.pc → b'.code[i]? = b.code[i]?
  cp : ∀ k, s.table? ≠ some k → b'.cp[k]? = b.cp[k]?
  boundAt : b'.boundAt = b.boundAt
  patches : b'.patches = b.patches
  handlers : b'.handlers = b.handlers
  pendingError : b'.pendingError = b.pendingError
  cpLength : b'.cp.length = b.cp.length

theorem Frame.refl (s : Site) (b : RbcBuilder) : Frame s b b :=
  ⟨rfl, fun _ _ => rfl, fun _ _ => rfl, rfl, rfl, rfl, rfl, rfl⟩

variable {s : Site} {p : Patch} {ps : List Patch}

theorem Frame.trans {b'' : RbcBuilder} (h : Frame s b b') (h' : Frame s b' b'') :
    Frame s b b'' where
  codeLength := h'.codeLength.trans h.codeLength
  code := fun i hi => (h'.code i hi).trans (h.code i hi)
  cp := fun k hk => (h'.cp k hk).trans (h.cp k hk)
  boundAt := h'.boundAt.trans h.boundAt
  patches := h'.patches.trans h.patches
  handlers := h'.handlers.trans h.handlers
  pendingError := h'.pendingError.trans h.pendingError
  cpLength := h'.cpLength.trans h.cpLength

theorem frame_setImm (s : Site) (b : RbcBuilder) (v : BitVec 32) : Frame s b (b.setImm s.pc v) :=
  ⟨length_modify _ _ _, fun i hi => getElem?_modify_ne _ _ (Ne.symm hi),
    fun _ _ => rfl, rfl, rfl, rfl, rfl, rfl⟩

theorem frame_setSlot {k : Nat} (hTable : s.table? = some k) (b : RbcBuilder) (slot : Nat)
    (v : BitVec 32) : Frame s b (b.setSlot k slot v) := by
  refine ⟨rfl, fun _ _ => rfl, fun j hj => ?_, rfl, rfl, rfl, rfl, length_modify _ _ _⟩
  have hNe : k ≠ j := by
    rintro rfl
    exact hj hTable
  exact getElem?_modify_ne _ _ hNe

/-- Two sites share neither instruction nor table. -/
theorem Tracks.apart (h : Tracks b L) {s' : Site} (hs : s ∈ L.sites) (hs' : s' ∈ L.sites)
    (hNe : s ≠ s') : s.pc ≠ s'.pc ∧ ∀ k, s.table? = some k → s'.table? ≠ some k := by
  have hSymm : ∀ {s s' : Site}, (s.pc ≠ s'.pc ∧ ∀ k, s.table? = some k → s'.table? ≠ some k) →
      s'.pc ≠ s.pc ∧ ∀ k, s'.table? = some k → s.table? ≠ some k :=
    fun hApart => ⟨hApart.1.symm, fun k hk hk' => hApart.2 k hk' hk⟩
  obtain ⟨i, hi, rfl⟩ := getElem_of_mem hs
  obtain ⟨j, hj, rfl⟩ := getElem_of_mem hs'
  have hOrdered := pairwise_iff_getElem.mp h.ordered
  rcases Nat.lt_trichotomy i j with hLt | hEq | hGt
  · exact hOrdered i j hi hj hLt
  · subst hEq
    exact absurd rfl hNe
  · exact hSymm (hOrdered j i hj hi hGt)

theorem Holds.frame {s' : Site} (h : b.Holds s') (hF : Frame s b b') (hPc : s'.pc ≠ s.pc)
    (hTable : ∀ k, s'.table? = some k → s.table? ≠ some k) : b'.Holds s' := by
  cases s' with
  | branch pc labels =>
    have hIn : pc < b.code.length := h
    show pc < b'.code.length
    rw [hF.codeLength]
    exact hIn
  | switch pc k op payload targets =>
    obtain ⟨hOp, hk, ⟨ins, hIns, hFields⟩, ts, hLength, hEntry⟩ := h
    refine ⟨hOp, hk, ⟨ins, ?_, hFields⟩, ts, hLength, ?_⟩
    · rw [hF.code pc hPc]
      exact hIns
    · rw [hF.cp k (hTable k rfl)]
      exact hEntry

theorem Tracks.frame (h : Tracks b L) (hs : s ∈ L.sites) (hF : Frame s b b') (hHolds : b'.Holds s) :
    Tracks b' L where
  patches := hF.patches.trans h.patches
  ordered := h.ordered
  holds := by
    intro s' hs'
    by_cases hEq : s' = s
    · rw [hEq]
      exact hHolds
    · obtain ⟨hPc, hTable⟩ := h.apart hs' hs hEq
      exact (h.holds s' hs').frame hF hPc hTable
  bound := by
    rw [hF.boundAt]
    exact h.bound
  unknown := by
    rw [hF.boundAt]
    exact h.unknown
  serves := by
    intro r hr
    rcases h.serves r hr with ⟨d, hRead, hSame, hFree⟩ | hBorrowed
    · left
      refine ⟨d, ?_, hSame, hFree⟩
      rw [hF.cp r.1 (hFree s hs)]
      exact hRead
    · exact .inr hBorrowed
  borrowed := h.borrowed
  handlers := hF.handlers.trans h.handlers
  proper := by
    rw [hF.pendingError]
    exact h.proper

theorem applyPatch_ok (h : b.applyPatch p = .ok b') :
    ∃ t, b.boundAt[p.labelId]? = some (.at t) ∧ t < b.code.length ∧ b.writeTarget p t = .ok b' := by
  unfold applyPatch at h
  split_ifs at h
  split at h
  · cases h
  · cases h
  · cases h
  · rename_i t hRead
    split_ifs at h with hOut
    exact ⟨t, hRead, Nat.lt_of_not_le hOut, h⟩

theorem applyPatch_branch {pc l : Nat} (h : b.applyPatch ⟨pc, l, none⟩ = .ok b') :
    ∃ t, b.boundAt[l]? = some (.at t) ∧ t < b.code.length ∧
      b' = b.setImm pc (BitVec.ofNat 32 t) := by
  obtain ⟨t, hRead, hIn, hWrite⟩ := applyPatch_ok h
  refine ⟨t, hRead, hIn, ?_⟩
  injection hWrite with hWrite
  exact hWrite.symm

theorem applyPatch_switch {pc k l slot : Nat} {op : Op} {payload : List (BitVec 32)}
    {targets : List Nat} (hHolds : b.Holds (.switch pc k op payload targets))
    (h : b.applyPatch ⟨pc, l, some slot⟩ = .ok b') :
    ∃ t, b.boundAt[l]? = some (.at t) ∧ t < b.code.length ∧
      b' = b.setSlot k slot (BitVec.ofNat 32 t) := by
  obtain ⟨hOp, hk, ⟨ins, hIns, hInsOp, hImm⟩, -⟩ := hHolds
  obtain ⟨t, hRead, hIn, hWrite⟩ := applyPatch_ok h
  refine ⟨t, hRead, hIn, ?_⟩
  have hIndex : ins.immIdx = k := by
    rw [Ins.immIdx, hImm, BitVec.toNat_ofNat, mod_eq_of_lt hk]
  simp only [writeTarget, hIns, hInsOp, hOp, if_true, hIndex] at hWrite
  split_ifs at hWrite
  injection hWrite with hWrite
  exact hWrite.symm

theorem Tracks.position (h : Tracks b L) {l t : Nat} (hRead : b.boundAt[l]? = some (.at t)) :
    L.positions l = [t] := by
  have hBound := h.bound l _ hRead
  rcases hList : L.positions l with _ | ⟨t₁, _ | ⟨t₂, ts⟩⟩
  · rw [hList] at hBound
    cases hBound
  · rw [hList] at hBound
    injection hBound with hBound
    rw [hBound]
  · rw [hList] at hBound
    cases hBound

theorem Tracks.place_eq (h : Tracks b L) {l t : Nat} (hRead : b.boundAt[l]? = some (.at t)) :
    L.place l = t := by
  rw [Ledger.place, h.position hRead]
  rfl

/-- A patch keeps the builder in step with the ledger, and to the site it belongs to. -/
theorem Tracks.applyPatch (h : Tracks b L) (hs : s ∈ L.sites) (hp : p ∈ s.patches)
    (hOk : b.applyPatch p = .ok b') : Tracks b' L ∧ Frame s b b' := by
  have hHolds := h.holds s hs
  cases s with
  | branch pc labels =>
    obtain ⟨l, -, rfl⟩ := mem_map.mp hp
    obtain ⟨t, -, -, rfl⟩ := applyPatch_branch hOk
    have hF := frame_setImm (.branch pc labels) b (BitVec.ofNat 32 t)
    refine ⟨h.frame hs hF ?_, hF⟩
    exact lt_of_lt_of_eq hHolds hF.codeLength.symm
  | switch pc k op payload targets =>
    obtain ⟨⟨pair, i⟩, hMem, rfl⟩ := mem_map.mp hp
    obtain ⟨t, -, -, rfl⟩ := applyPatch_switch hHolds hOk
    have hF : Frame (.switch pc k op payload targets) b
        (b.setSlot k (targetSlot op i) (BitVec.ofNat 32 t)) := frame_setSlot rfl b _ _
    refine ⟨h.frame hs hF ?_, hF⟩
    obtain ⟨hOp, hk, hIns, ts, hLength, hEntry⟩ := hHolds
    have hIn : i < ts.length := by
      rw [hLength]
      exact snd_lt_of_mem_zipIdx hMem
    refine ⟨hOp, hk, hIns, ts.set i (BitVec.ofNat 32 t), ?_, ?_⟩
    · rw [length_set, hLength]
    · rw [setSlot_table _ hEntry, switchTable_set _ (by rw [length_map, hLength]) hIn]

/-! ## All patches -/

/-- Whatever patches are applied, up to an error or to the end. -/
theorem Tracks.resolvePatches (h : Tracks b L) (hPs : ∀ p ∈ ps, ∃ s ∈ L.sites, p ∈ s.patches) :
    Tracks (b.resolvePatches ps).1 L := by
  induction ps generalizing b with
  | nil => exact h
  | cons p ps ih =>
    rw [resolvePatches]
    rcases hOk : b.applyPatch p with e | b₁
    · exact h
    · obtain ⟨s, hs, hp⟩ := hPs p mem_cons_self
      exact ih (h.applyPatch hs hp hOk).1 fun q hq => hPs q (mem_cons_of_mem _ hq)

theorem Tracks.finish (h : Tracks b L) (out : Method) : Tracks (b.finish out).1 L := by
  have hAll : ∀ p ∈ b.patches, ∃ s ∈ L.sites, p ∈ s.patches := by
    intro p hp
    rw [h.patches] at hp
    exact mem_flatMap.mp hp
  have hResolved := h.resolvePatches hAll
  unfold RbcBuilder.finish
  split_ifs
  · exact h
  split
  · exact h
  split
  · rename_i b' e hRun
    rw [hRun] at hResolved
    exact hResolved
  · rename_i b' hRun
    rw [hRun] at hResolved
    split
    all_goals exact hResolved

theorem resolvePatches_append {qs : List Patch} {b' : RbcBuilder}
    (h : b.resolvePatches (ps ++ qs) = (b', none)) :
    ∃ b₁, b.resolvePatches ps = (b₁, none) ∧ b₁.resolvePatches qs = (b', none) := by
  induction ps generalizing b with
  | nil => exact ⟨b, rfl, h⟩
  | cons p ps ih =>
    rw [cons_append, resolvePatches] at h
    rw [resolvePatches]
    rcases hOk : b.applyPatch p with e | b₁
    · rw [hOk] at h
      cases h
    · rw [hOk] at h
      exact ih h

theorem resolvePatches_cons (h : b.resolvePatches (p :: ps) = (b', none)) :
    ∃ b₁, b.applyPatch p = .ok b₁ ∧ b₁.resolvePatches ps = (b', none) := by
  rw [resolvePatches] at h
  rcases hOk : b.applyPatch p with e | b₁
  · rw [hOk] at h
    cases h
  · rw [hOk] at h
    exact ⟨b₁, rfl, h⟩

theorem Tracks.resolve_frame (h : Tracks b L) (hs : s ∈ L.sites) (hPs : ∀ p ∈ ps, p ∈ s.patches)
    (hRun : b.resolvePatches ps = (b', none)) : Tracks b' L ∧ Frame s b b' := by
  induction ps generalizing b with
  | nil =>
    injection hRun with hRun
    subst hRun
    exact ⟨h, Frame.refl s b⟩
  | cons p ps ih =>
    obtain ⟨b₁, hOk, hRest⟩ := resolvePatches_cons hRun
    obtain ⟨h₁, hF₁⟩ := h.applyPatch hs (hPs p mem_cons_self) hOk
    obtain ⟨h', hF⟩ := ih h₁ (fun q hq => hPs q (mem_cons_of_mem _ hq)) hRest
    exact ⟨h', hF₁.trans hF⟩

def Resolved (b : RbcBuilder) (L : Ledger) : Site → Prop
  | .branch pc labels => ∀ l, labels.getLast? = some l →
      ∃ ins, b.code[pc]? = some ins ∧ ins.imm = BitVec.ofNat 32 (L.place l)
  | s@(.switch _ k _ _ _) => b.cp[k]? = some (tableConst (L.tableOf s))

/-- The label was bound once, at an instruction. -/
def Placed (b : RbcBuilder) (L : Ledger) (l : Nat) : Prop :=
  ∃ t < b.code.length, L.positions l = [t]

theorem Tracks.resolve_branch {pc : Nat} {labels ls : List Nat} (h : Tracks b L)
    (hs : .branch pc labels ∈ L.sites) (hLs : ∀ l ∈ ls, l ∈ labels)
    (hRun : b.resolvePatches (ls.map fun l => ⟨pc, l, none⟩) = (b', none)) :
    (∀ l ∈ ls, Placed b L l) ∧ Resolved b' L (.branch pc ls) := by
  induction ls generalizing b with
  | nil => exact ⟨fun l hl => absurd hl not_mem_nil, fun l hl => by cases hl⟩
  | cons l ls ih =>
    rw [map_cons] at hRun
    obtain ⟨b₁, hOk, hRest⟩ := resolvePatches_cons hRun
    have hMem : ⟨pc, l, none⟩ ∈ (Site.branch pc labels).patches :=
      mem_map.mpr ⟨l, hLs l mem_cons_self, rfl⟩
    obtain ⟨h₁, hF₁⟩ := h.applyPatch hs hMem hOk
    obtain ⟨t, hRead, hIn, hEq⟩ := applyPatch_branch hOk
    obtain ⟨hPlaced, hResolved⟩ :=
      ih h₁ (fun m hm => hLs m (mem_cons_of_mem _ hm)) hRest
    constructor
    · intro m hm
      rcases mem_cons.mp hm with rfl | hm
      · exact ⟨t, hIn, h.position hRead⟩
      · obtain ⟨t', hIn', hPosition⟩ := hPlaced m hm
        exact ⟨t', hF₁.codeLength ▸ hIn', hPosition⟩
    · intro m hm
      cases ls with
      | nil =>
        injection hm with hm
        injection hRest with hRest
        have hPc : pc < b.code.length := h.holds _ hs
        refine ⟨{ b.code[pc] with imm := BitVec.ofNat 32 t }, ?_, ?_⟩
        · rw [← hRest, hEq, setImm, getElem?_modify_eq, getElem?_eq_getElem hPc]
          rfl
        · rw [← hm]
          show BitVec.ofNat 32 t = BitVec.ofNat 32 (L.place l)
          rw [h.place_eq hRead]
      | cons l₂ ls => exact hResolved m (by rw [getLast?_cons_cons] at hm; exact hm)

theorem Tracks.resolve_switch {pc k : Nat} {op : Op} {payload : List (BitVec 32)}
    {targets : List Nat} {pairs rest : List (BitVec 32 × Nat)} {old : List (BitVec 32)}
    (h : Tracks b L) (hs : .switch pc k op payload targets ∈ L.sites)
    (hPairs : switchPairs payload targets = pairs ++ rest) (hOld : old.length = rest.length)
    (hEntry : b.cp[k]? = some (tableConst (switchTable op pc ((pairs ++ rest).map (·.1))
      (pairs.map (fun p => BitVec.ofNat 32 (L.place p.2)) ++ old))))
    (hRun : b.resolvePatches ((rest.zipIdx pairs.length).map fun p =>
      ⟨pc, p.1.2, some (targetSlot op p.2)⟩) = (b', none)) :
    (∀ p ∈ rest, Placed b L p.2) ∧
      b'.cp[k]? = some (tableConst (switchTable op pc ((pairs ++ rest).map (·.1))
        ((pairs ++ rest).map fun p => BitVec.ofNat 32 (L.place p.2)))) := by
  induction rest generalizing b pairs old with
  | nil =>
    injection hRun with hRun
    rw [length_nil, length_eq_zero_iff] at hOld
    subst hRun hOld
    refine ⟨fun p hp => absurd hp not_mem_nil, ?_⟩
    rw [append_nil] at hEntry ⊢
    rw [append_nil] at hEntry
    exact hEntry
  | cons pair rest ih =>
    cases old with
    | nil => cases hOld
    | cons v old =>
      rw [zipIdx_cons, map_cons] at hRun
      obtain ⟨b₁, hOk, hRest⟩ := resolvePatches_cons hRun
      have hMem : ⟨pc, pair.2, some (targetSlot op pairs.length)⟩ ∈
          (Site.switch pc k op payload targets).patches := by
        refine mem_map.mpr ⟨(pair, pairs.length), ?_, rfl⟩
        rw [mem_zipIdx_iff_getElem?, hPairs]
        simp
      obtain ⟨h₁, hF₁⟩ := h.applyPatch hs hMem hOk
      obtain ⟨t, hRead, hIn, hEq⟩ := applyPatch_switch (h.holds _ hs) hOk
      have hSplit : pairs ++ pair :: rest = (pairs ++ [pair]) ++ rest := by simp
      -- the slot of the first case that is left
      have hEntry₁ : b₁.cp[k]? = some (tableConst (switchTable op pc
          (((pairs ++ [pair]) ++ rest).map (·.1))
          ((pairs ++ [pair]).map (fun p => BitVec.ofNat 32 (L.place p.2)) ++ old))) := by
        have hLength : (pairs.map (fun p => BitVec.ofNat 32 (L.place p.2)) ++
            v :: old).length = ((pairs ++ pair :: rest).map (·.1)).length := by
          simp only [length_append, length_map, length_cons] at hOld ⊢
          omega
        have hSlot : pairs.length < (pairs.map (fun p => BitVec.ofNat 32 (L.place p.2)) ++
            v :: old).length := by
          simp only [length_append, length_map, length_cons]
          omega
        have hSet : (pairs.map (fun p => BitVec.ofNat 32 (L.place p.2)) ++ v :: old).set
            pairs.length (BitVec.ofNat 32 t) =
            (pairs ++ [pair]).map (fun p => BitVec.ofNat 32 (L.place p.2)) ++ old := by
          have hPlace := h.place_eq hRead
          rw [set_append_right _ _ (Nat.le_of_eq (length_map _)), length_map,
            Nat.sub_self, set_cons_zero, map_append, append_assoc, ← hPlace]
          rfl
        rw [hEq, setSlot_table _ hEntry, switchTable_set _ hLength hSlot, hSet, ← hSplit]
      rw [hSplit] at hPairs ⊢
      have hIndex : pairs.length + 1 = (pairs ++ [pair]).length := by simp
      rw [hIndex] at hRest
      injection hOld with hOld
      obtain ⟨hPlaced, hFinal⟩ := ih h₁ hPairs hOld hEntry₁ hRest
      refine ⟨?_, hFinal⟩
      intro p hp
      rcases mem_cons.mp hp with rfl | hp
      · exact ⟨t, hIn, h.position hRead⟩
      · obtain ⟨t', hIn', hPosition⟩ := hPlaced p hp
        exact ⟨t', hF₁.codeLength ▸ hIn', hPosition⟩

end B2Compiler.Rbc.RbcBuilder
