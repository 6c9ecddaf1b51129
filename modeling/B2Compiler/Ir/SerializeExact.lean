import B2Compiler.Ir.Serialize

/-!
# The format is exact

Reading records and acting on them at once is split into parsing the whole file into an
image and replaying the image.  The parser is exact: it accepts precisely what the
writer emits for images whose numbers fit their fields, followed by any bytes.
-/

namespace B2Compiler.Ir

open Lib List Nat

/-- All tables of a file. -/
def decode : Reader String (Nat × Image) := fun bs => do
  let (version, bs) ← readHeader bs
  let (nodes, bs) ← readTable "truncated node count" readNode bs
  let (frameStates, bs) ← readTable "truncated FrameState table" readFrameState bs
  let (specMetas, bs) ← readTable "truncated SpecMeta table" readSpecMeta bs
  let (deps, bs) ← readTable "truncated Dependency table" readDependency bs
  let (replacements, bs) ← readTable "truncated replacement log" readReplacement bs
  return ((version, ⟨nodes, frameStates, specMetas, deps, replacements⟩), bs)

/-- Rebuilding a graph from an image. -/
def replay (im : Image) (g : Store) : Except String Store := do
  let (g, pending) ← actAll replayNode 0 im.nodes (g, [])
  let g ← actAll replayFrameState 0 im.frameStates (replayEdges g pending)
  let g ← actAll replaySpecMeta 0 im.specMetas g
  let g ← actAll replayDependency 0 im.deps g
  actAll (replayReplacement im.nodes.length) 0 im.replacements g

/-- The reader accepts what parses and replays. -/
theorem rebuildInto_eq_ok_iff (bs : List Byte) (g g' : Store) : rebuildInto bs g = .ok g' ↔
      ∃ version im rest, decode bs = .ok ((version, im), rest) ∧ replay im g = .ok g' := by
  simp only [rebuildInto, decode, readTable, replay, bind_eq_ok_iff, Prod.exists,
    readLoop_eq_ok_iff, pure_eq_ok_iff, Prod.mk.injEq]
  constructor
  · rintro ⟨version, b₀, hHead, n, b₁, hn, g₁, pending, b₂, ⟨nodes, hNodes, hActNodes⟩,
      n₂, b₃, hn₂, g₂, b₄, ⟨frames, hFrames, hActFrames⟩, n₃, b₅, hn₃, g₃, b₆,
      ⟨specs, hSpecs, hActSpecs⟩, n₄, b₇, hn₄, g₄, b₈, ⟨deps, hDeps, hActDeps⟩, n₅, b₉, hn₅,
      g₅, rest, ⟨log, hLog, hActLog⟩, rfl⟩
    have hLen := length_of_readMany hNodes
    exact ⟨version, ⟨nodes, frames, specs, deps, log⟩, rest,
      ⟨version, b₀, hHead, nodes, b₂, ⟨n, b₁, hn, hNodes⟩, frames, b₄, ⟨n₂, b₃, hn₂, hFrames⟩,
        specs, b₆, ⟨n₃, b₅, hn₃, hSpecs⟩, deps, b₈, ⟨n₄, b₇, hn₄, hDeps⟩, log, rest,
        ⟨n₅, b₉, hn₅, hLog⟩, ⟨rfl, rfl⟩, rfl⟩,
      g₁, pending, hActNodes, g₂, hActFrames, g₃, hActSpecs, g₄, hActDeps, hLen ▸ hActLog⟩
  · rintro ⟨version, im, rest, ⟨version', b₀, hHead, nodes, b₂, ⟨n, b₁, hn, hNodes⟩,
      frames, b₄, ⟨n₂, b₃, hn₂, hFrames⟩, specs, b₆, ⟨n₃, b₅, hn₃, hSpecs⟩, deps, b₈,
      ⟨n₄, b₇, hn₄, hDeps⟩, log, b₁₀, ⟨n₅, b₉, hn₅, hLog⟩, ⟨rfl, rfl⟩, rfl⟩,
      g₁, pending, hActNodes, g₂, hActFrames, g₃, hActSpecs, g₄, hActDeps, hActLog⟩
    rw [length_of_readMany hNodes] at hActLog
    exact ⟨version', b₀, hHead, n, b₁, hn, g₁, pending, b₂, ⟨nodes, hNodes, hActNodes⟩,
      n₂, b₃, hn₂, g₂, b₄, ⟨frames, hFrames, hActFrames⟩, n₃, b₅, hn₃, g₃, b₆,
      ⟨specs, hSpecs, hActSpecs⟩, n₄, b₇, hn₄, g₄, b₈, ⟨deps, hDeps, hActDeps⟩, n₅, b₉, hn₅,
      g', b₁₀, ⟨log, hLog, hActLog⟩, rfl⟩

/-! ## Records -/

theorem nodeKind_ofNat_ctorIdx (k : NodeKind) : NodeKind.ofNat k.ctorIdx = k := by
  cases k <;> rfl

theorem nodeKind_ctorIdx_lt (k : NodeKind) : k.ctorIdx < nodeKindCount := by
  cases k <;> decide

theorem nodeKind_ctorIdx_ofNat : ∀ n, n < nodeKindCount → (NodeKind.ofNat n).ctorIdx = n := by
  decide

/-- The numbers of a node record fit their fields. -/
def NodeImage.Fits (nd : NodeImage) : Prop :=
  nd.reserved = 0 ∧ nd.inputs.length < 256 ^ 2 ∧ ∀ v ∈ nd.inputs, v < 256 ^ 4

def FrameImage.Fits (d : FrameImage) : Prop :=
  d.vobjs.length < 256 ^ 4 ∧ ∀ v ∈ d.vobjs, v < 256 ^ 4

def Replacement.Fits (r : Replacement) : Prop :=
  r.oldNode < 256 ^ 4 ∧ r.newNode < 256 ^ 4

theorem exact_readNode : Exact putNode readNode NodeImage.Fits := by
  have hLe := fun (k : Nat) => exact_readLe k "truncated node record"
  have hW16 := exact_readWord (k := 2) (w := 16) rfl "truncated node record"
  have hW32 := exact_readWord (k := 4) (w := 32) rfl "truncated node record"
  have hW64 := exact_readWord (k := 8) (w := 64) rfl "truncated node record"
  have hIds := fun (n : Nat) => (exact_readLe 4 "truncated node inputs").many n
  constructor
  · rintro nd rest ⟨hReserved, hLen, hInputs⟩
    have hKind : nd.kind.ctorIdx < 256 ^ 2 :=
      lt_trans (nodeKind_ctorIdx_lt nd.kind) (by decide)
    have hKindOk : ¬ nodeKindCount ≤ nd.kind.ctorIdx :=
      not_le.mpr (nodeKind_ctorIdx_lt nd.kind)
    have hMany := (hIds nd.inputs.length).get_put nd.inputs rest ⟨rfl, hInputs⟩
    simp only [putNode, readNode, append_assoc, (hLe 2).get_put _ _ hKind,
      hW16.get_put _ _ trivial, hW32.get_put _ _ trivial, hW64.get_put _ _ trivial,
      (hLe 2).get_put _ _ hLen, ok_bind, hKindOk, if_false, hReserved, ne_eq, not_true_eq_false]
    rw [hMany, ok_bind, nodeKind_ofNat_ctorIdx, ← hReserved]
    rfl
  · intro bs nd rest h
    simp only [readNode, (hLe _).bind_ok_iff, hW16.bind_ok_iff, hW32.bind_ok_iff,
      hW64.bind_ok_iff, guard_eq_ok_iff, (hIds _).bind_ok_iff, pure_eq_ok_iff] at h
    obtain ⟨kind, -, _, rfl, flags, -, _, rfl, payload, -, _, rfl, payload2, -, _, rfl,
      constValue, -, _, rfl, specMeta, -, _, rfl, epoch, -, _, rfl, num, hNum, _, rfl,
      reserved, -, _, rfl, hKind, hReserved, inputs, ⟨rfl, hFits⟩, _, rfl, h⟩ := h
    injection h with hNd hRest
    subst hNd hRest
    have hIdx := nodeKind_ctorIdx_ofNat kind (Nat.lt_of_not_le hKind)
    refine ⟨?_, ?_, hNum, hFits⟩
    · simp only [putNode, hIdx, append_assoc]
    · simpa using hReserved

theorem exact_readFrameState : Exact putFrameState readFrameState FrameImage.Fits := by
  have hLe := exact_readLe 4 "truncated FrameState descriptor"
  have hW32 := exact_readWord (k := 4) (w := 32) rfl "truncated FrameState descriptor"
  have hIds := fun (n : Nat) => (exact_readLe 4 "truncated FrameState vobj list").many n
  constructor
  · rintro d rest ⟨hLen, hVobjs⟩
    have hMany := (hIds d.vobjs.length).get_put d.vobjs rest ⟨rfl, hVobjs⟩
    simp only [putFrameState, readFrameState, append_assoc, hW32.get_put _ _ trivial,
      hLe.get_put _ _ hLen, ok_bind]
    rw [hMany, ok_bind]
    rfl
  · intro bs d rest h
    simp only [readFrameState, hW32.bind_ok_iff, hLe.bind_ok_iff, (hIds _).bind_ok_iff,
      pure_eq_ok_iff] at h
    obtain ⟨method, -, _, rfl, pc, -, _, rfl, caller, -, _, rfl, count, hCount, _, rfl,
      vobjs, ⟨rfl, hFits⟩, _, rfl, h⟩ := h
    injection h with hd hRest
    subst hd hRest
    exact ⟨by simp only [putFrameState, append_assoc], hCount, hFits⟩

theorem exact_readSpecMeta : Exact putSpecMeta readSpecMeta (fun _ => True) := by
  have hLe := exact_readLe 4 "truncated SpecMeta record"
  have hW32 := exact_readWord (k := 4) (w := 32) rfl "truncated SpecMeta record"
  constructor
  · rintro sm rest -
    have hKind : sm.kind.ctorIdx < 256 ^ 4 ∧ ¬ 8 < sm.kind.ctorIdx ∧
        SpecMeta.Kind.ofNat sm.kind.ctorIdx = sm.kind := by
      cases sm.kind <;> decide
    have hSource : sm.source.ctorIdx < 256 ^ 4 ∧ ¬ 2 < sm.source.ctorIdx ∧
        SpecMeta.Source.ofNat sm.source.ctorIdx = sm.source := by
      cases sm.source <;> decide
    have hRollback : sm.rollback.ctorIdx < 256 ^ 4 ∧ ¬ 2 < sm.rollback.ctorIdx ∧
        SpecMeta.Rollback.ofNat sm.rollback.ctorIdx = sm.rollback := by
      cases sm.rollback <;> decide
    simp only [putSpecMeta, readSpecMeta, append_assoc, hLe.get_put _ _ hKind.1,
      hLe.get_put _ _ hSource.1, hW32.get_put _ _ trivial, hLe.get_put _ _ hRollback.1, ok_bind,
      hKind.2.1, hSource.2.1, hRollback.2.1, or_self, if_false, hKind.2.2, hSource.2.2,
      hRollback.2.2]
  · intro bs sm rest h
    simp only [readSpecMeta, hLe.bind_ok_iff, hW32.bind_ok_iff, guard_eq_ok_iff] at h
    obtain ⟨k, -, _, rfl, src, -, _, rfl, conf, -, _, rfl, guard, -, _, rfl, deopt, -, _, rfl,
      cost, -, _, rfl, dep, -, _, rfl, rb, -, _, rfl, hRange, h⟩ := h
    injection h with h
    injection h with hSm hRest
    subst hSm hRest
    have hKind : ∀ k, k < 9 → (SpecMeta.Kind.ofNat k).ctorIdx = k := by decide
    have hSource : ∀ k, k < 3 → (SpecMeta.Source.ofNat k).ctorIdx = k := by decide
    have hRollback : ∀ k, k < 3 → (SpecMeta.Rollback.ofNat k).ctorIdx = k := by decide
    refine ⟨?_, trivial⟩
    simp only [putSpecMeta, hKind k (by omega), hSource src (by omega),
      hRollback rb (by omega), append_assoc]

theorem exact_readDependency : Exact putDependency readDependency (fun _ => True) := by
  have hLe := exact_readLe 4 "truncated Dependency record"
  have hW32 := exact_readWord (k := 4) (w := 32) rfl "truncated Dependency record"
  constructor
  · rintro d rest -
    have hKind : d.kind.ctorIdx < 256 ^ 4 ∧ ¬ 4 < d.kind.ctorIdx ∧
        Dependency.Kind.ofNat d.kind.ctorIdx = d.kind := by
      cases d.kind <;> decide
    simp only [putDependency, readDependency, append_assoc, hLe.get_put _ _ hKind.1,
      hW32.get_put _ _ trivial, ok_bind, hKind.2.1, if_false, hKind.2.2]
  · intro bs d rest h
    simp only [readDependency, hLe.bind_ok_iff, hW32.bind_ok_iff, guard_eq_ok_iff] at h
    obtain ⟨k, -, _, rfl, target, -, _, rfl, hRange, h⟩ := h
    injection h with h
    injection h with hd hRest
    subst hd hRest
    have hKind : ∀ k, k < 5 → (Dependency.Kind.ofNat k).ctorIdx = k := by decide
    exact ⟨by simp only [putDependency, hKind k (by omega), append_assoc], trivial⟩

theorem exact_readReplacement : Exact putReplacement readReplacement Replacement.Fits := by
  have hLe := exact_readLe 4 "truncated replacement entry"
  have hW32 := exact_readWord (k := 4) (w := 32) rfl "truncated replacement entry"
  constructor
  · rintro r rest ⟨hOld, hNew⟩
    simp only [putReplacement, readReplacement, append_assoc, hLe.get_put _ _ hOld,
      hLe.get_put _ _ hNew, hW32.get_put _ _ trivial, ok_bind]
    rfl
  · intro bs r rest h
    simp only [readReplacement, hLe.bind_ok_iff, hW32.bind_ok_iff, pure_eq_ok_iff] at h
    obtain ⟨oldNode, hOld, _, rfl, newNode, hNew, _, rfl, epoch, -, _, rfl, h⟩ := h
    injection h with hr hRest
    subst hr hRest
    exact ⟨by simp only [putReplacement, append_assoc], hOld, hNew⟩

/-- Every number of an image fits its field of the format: ids and table sizes are
32-bit numbers, input counts 16-bit numbers. -/
structure Image.Fits (im : Image) : Prop where
  nodes : im.nodes.length < 256 ^ 4 ∧ ∀ nd ∈ im.nodes, nd.Fits
  frameStates : im.frameStates.length < 256 ^ 4 ∧ ∀ d ∈ im.frameStates, d.Fits
  specMetas : im.specMetas.length < 256 ^ 4
  deps : im.deps.length < 256 ^ 4
  replacements : im.replacements.length < 256 ^ 4 ∧ ∀ r ∈ im.replacements, r.Fits

/-- A version the reader accepts. -/
def ReadableVersion (version : Nat) : Prop :=
  kIrMinReadVersion ≤ version ∧ version ≤ kIrFormatVersion

theorem exact_readHeader : Exact (fun version => leBytes 4 kIrMagic ++ leBytes 4 version) readHeader
      ReadableVersion := by
  have hLe := exact_readLe 4 "truncated header"
  constructor
  · rintro version rest ⟨hMin, hMax⟩
    have hLt : version < 256 ^ 4 := lt_of_le_of_lt hMax (by decide)
    have hOk : ¬ (version ≠ kIrFormatVersion ∧
        ¬ (kIrMinReadVersion ≤ version ∧ version < kIrFormatVersion)) := by
      rintro ⟨hNe, hBad⟩
      exact hBad ⟨hMin, lt_of_le_of_ne hMax hNe⟩
    simp only [readHeader, append_assoc, hLe.get_put kIrMagic _ (by decide),
      hLe.get_put _ _ hLt, ok_bind, ne_eq, not_true_eq_false, if_false]
    rw [if_neg hOk]
  · intro bs version rest h
    simp only [readHeader, hLe.bind_ok_iff, guard_eq_ok_iff, not_not] at h
    obtain ⟨magic, -, _, rfl, version', -, _, rfl, rfl, hOk, h⟩ := h
    injection h with h
    injection h with hVersion hRest
    subst hVersion hRest
    refine ⟨(append_assoc ..).symm, ?_⟩
    by_cases hEq : version' = kIrFormatVersion
    · subst hEq
      exact ⟨by decide, le_refl _⟩
    · have hIn : kIrMinReadVersion ≤ version' ∧ version' < kIrFormatVersion := by
        by_contra hNot
        exact hOk ⟨hEq, hNot⟩
      exact ⟨hIn.1, le_of_lt hIn.2⟩

/-- The parser undoes the writer on images that fit and accepts only what the writer
emits, followed by any bytes. -/
theorem exact_decode : Exact (fun p : Nat × Image => encode p.1 p.2) decode
      (fun p => ReadableVersion p.1 ∧ p.2.Fits) := by
  have hNodes := exact_readNode.table "truncated node count"
  have hFrames := exact_readFrameState.table "truncated FrameState table"
  have hSpecs := exact_readSpecMeta.table "truncated SpecMeta table"
  have hDeps := exact_readDependency.table "truncated Dependency table"
  have hLog := exact_readReplacement.table "truncated replacement log"
  constructor
  · rintro ⟨version, im⟩ rest ⟨hVersion, hFits⟩
    have hHead := fun bs => exact_readHeader.get_put version bs hVersion
    simp only [append_assoc] at hHead
    simp only [decode, encode, putTables, append_assoc, hHead,
      hNodes.get_put _ _ hFits.nodes, hFrames.get_put _ _ hFits.frameStates,
      hSpecs.get_put _ _ ⟨hFits.specMetas, fun _ _ => trivial⟩,
      hDeps.get_put _ _ ⟨hFits.deps, fun _ _ => trivial⟩,
      hLog.get_put _ _ hFits.replacements, ok_bind]
    rfl
  · rintro bs ⟨version, im⟩ rest h
    simp only [decode, exact_readHeader.bind_ok_iff, hNodes.bind_ok_iff, hFrames.bind_ok_iff,
      hSpecs.bind_ok_iff, hDeps.bind_ok_iff, hLog.bind_ok_iff, pure_eq_ok_iff] at h
    obtain ⟨version', hReadable, _, rfl, nodes, hFitsNodes, _, rfl, frames, hFitsFrames, _, rfl,
      specs, hFitsSpecs, _, rfl, deps, hFitsDeps, _, rfl, log, hFitsLog, _, rfl, h⟩ := h
    injection h with hPair hRest
    injection hPair with hVersion hIm
    subst hVersion hIm hRest
    refine ⟨?_, hReadable, ⟨hFitsNodes, hFitsFrames, hFitsSpecs.1, hFitsDeps.1, hFitsLog⟩⟩
    simp only [encode, putTables, append_assoc]

/-- The writer separates images that fit, whatever follows. -/
theorem encode_injective {version : Nat} {im im' : Image} (hVersion : ReadableVersion version)
    (hFits : im.Fits) (hFits' : im'.Fits) {rest rest' : List Byte}
    (h : encode version im ++ rest = encode version im' ++ rest') : im = im' ∧ rest = rest' := by
  have h₁ := exact_decode.get_put (version, im) rest ⟨hVersion, hFits⟩
  have h₂ := exact_decode.get_put (version, im') rest' ⟨hVersion, hFits'⟩
  dsimp only at h₁ h₂
  rw [h, h₂] at h₁
  injection h₁ with h₁
  injection h₁ with hPair hRest
  injection hPair with _ hIm
  exact ⟨hIm.symm, hRest.symm⟩

end B2Compiler.Ir
