import B2Compiler.Codegen.ArchiveFormat
import B2Compiler.Lib.Overlay

/-!
# What validation says of the holes

A validated archive has the holes of its stencil records inside their code, as far as
offset and width can be added in 32 bits; the code of a loaded record is a stretch of the
bytes it was loaded from.  Validation does not compare the holes of one record with each
other, and looks at no hole of an internal template.
-/

namespace B2Compiler.Instantiate

open Baseline List
open Lib
open Lib.Overlay (store)

/-! ## Holes and code -/

def ArchiveHole.Inside (h : ArchiveHole) (rec : ArchiveRecord) : Prop :=
  h.codeOffset.toNat + h.width.toNat ≤ rec.code.length

/-- The hole shares no byte with another. -/
def ArchiveHole.Apart (h g : ArchiveHole) : Prop :=
  h.codeOffset.toNat + h.width.toNat ≤ g.codeOffset.toNat ∨
    g.codeOffset.toNat + g.width.toNat ≤ h.codeOffset.toNat

/-- The end of the hole is an offset of 32 bits. -/
def ArchiveHole.EndFits (h : ArchiveHole) : Prop :=
  h.codeOffset.toNat + h.width.toNat < 2 ^ 32

instance (h : ArchiveHole) (rec : ArchiveRecord) : Decidable (h.Inside rec) :=
  inferInstanceAs (Decidable (_ ≤ _))

instance (h g : ArchiveHole) : Decidable (h.Apart g) := inferInstanceAs (Decidable (_ ∨ _))

def Archive.stencilRecords (a : Archive) (set : StencilSet) : List ArchiveRecord :=
  a.records.take set.stencils.length

variable {rec : ArchiveRecord} {n : Nat} {bs rest : List Byte}

theorem holesError_eq_none {holes : List ArchiveHole} {left : List PatchSiteDesc}
    (h : holesError rec holes left = none) :
    ∀ hole ∈ holes, (hole.width = 1 ∨ hole.width = 2 ∨ hole.width = 4 ∨ hole.width = 8) ∧
      (hole.codeOffset.toNat + hole.width.toNat) % 2 ^ 32 ≤ rec.code.length := by
  induction holes generalizing left with
  | nil => exact fun _ hMem => absurd hMem not_mem_nil
  | cons hole rest ih =>
    unfold holesError at h
    dsimp only at h
    split at h
    · cases h
    rename_i hEnd
    split at h
    · cases h
    rename_i hWidth
    have hHead : (hole.width = 1 ∨ hole.width = 2 ∨ hole.width = 4 ∨ hole.width = 8) ∧
        (hole.codeOffset.toNat + hole.width.toNat) % 2 ^ 32 ≤ rec.code.length := by
      refine ⟨?_, Nat.le_of_not_lt hEnd⟩
      by_contra hNone
      simp only [not_or] at hNone
      exact hWidth hNone
    have hRest : ∃ left, holesError rec rest left = none := by
      split at h
      · exact ⟨left, h⟩
      · split at h
        · cases h
        · exact ⟨_, h⟩
    obtain ⟨left', hRest⟩ := hRest
    intro g hMem
    rcases mem_cons.mp hMem with rfl | hMem
    · exact hHead
    · exact ih hRest g hMem

/-- The checks an accepted archive has passed on its stencil records. -/
theorem recordError_eq_none {a : Archive} {set : StencilSet} (h : (validateArchive a set).ok = true)
    (hRec : rec ∈ a.stencilRecords set) : ∃ d i, recordError d rec i = none := by
  have hNone : archiveError a set = none := by
    unfold validateArchive at h
    cases hError : archiveError a set with
    | none => rfl
    | some e =>
      rw [hError] at h
      cases h
  unfold archiveError at hNone
  split_ifs at hNone
  rw [Option.or_eq_none_iff, findSome?_eq_none_iff] at hNone
  unfold Archive.stencilRecords at hRec
  obtain ⟨i, hTake, rfl⟩ := mem_iff_getElem.mp hRec
  have hLt : i < min set.stencils.length a.records.length := by
    rwa [length_take] at hTake
  have hSet : i < set.stencils.length := by omega
  have hRecords : i < a.records.length := by omega
  have hZip : i < (set.stencils.zip a.records).length := by
    rw [length_zip]
    omega
  have hMem : ((set.stencils.zip a.records)[i], i) ∈ (set.stencils.zip a.records).zipIdx := by
    rw [mem_zipIdx_iff_getElem?]
    exact getElem?_eq_getElem hZip
  have hChecked := hNone.1 _ hMem
  rw [getElem_zip] at hChecked
  refine ⟨set.stencils[i], i, ?_⟩
  rw [getElem_take]
  exact hChecked

theorem stencilRecord_checked {a : Archive} {set : StencilSet}
    (h : (validateArchive a set).ok = true) (hRec : rec ∈ a.stencilRecords set) :
    ∀ hole ∈ rec.holes, (hole.width = 1 ∨ hole.width = 2 ∨ hole.width = 4 ∨ hole.width = 8) ∧
      (hole.codeOffset.toNat + hole.width.toNat) % 2 ^ 32 ≤ rec.code.length := by
  obtain ⟨d, i, hNone⟩ := recordError_eq_none h hRec
  unfold recordError at hNone
  split at hNone
  · cases hNone
  · rw [Option.or_eq_none_iff] at hNone
    exact holesError_eq_none hNone.1

/-! ## Code of loaded records -/

theorem suffix_of_readHole {hole : ArchiveHole} (h : readHole bs = .ok (hole, rest)) :
    rest <:+ bs := by
  have hW8 := exact_readWord (k := 1) (w := 8) rfl ()
  have hW32 := exact_readWord (k := 4) (w := 32) rfl ()
  simp only [readHole, hW8.bind_ok_iff, hW32.bind_ok_iff, (exact_readLe _ ()).bind_ok_iff,
    pure_eq_ok_iff] at h
  obtain ⟨_, -, _, rfl, _, -, _, rfl, _, -, _, rfl, _, -, _, rfl, _, -, _, rfl, _, -, _, rfl,
    _, -, _, rfl, _, -, _, rfl, _, -, _, rfl, h⟩ := h
  injection h with _ hRest
  subst hRest
  simp only [← append_assoc]
  exact suffix_append _ _

theorem suffix_of_readMany {α : Type} {get : Reader Unit α}
    (hGet : ∀ a bs rest, get bs = .ok (a, rest) → rest <:+ bs) {as : List α}
    (h : readMany get n bs = .ok (as, rest)) : rest <:+ bs := by
  induction n generalizing as bs with
  | zero =>
    cases h
    exact suffix_refl _
  | succ n ih =>
    obtain ⟨a, as', b, hHead, hTail, rfl⟩ := readMany_succ_eq_ok_iff.mp h
    exact (ih hTail).trans (hGet a bs b hHead)

theorem stretch_of_readRecord (h : readRecord bs = .ok (rec, rest)) :
    rec.code <:+: bs ∧ rest <:+ bs := by
  simp only [readRecord, (exact_readLe 4 ()).bind_ok_iff, (exact_readBytes _).bind_ok_iff] at h
  obtain ⟨_, -, _, rfl, name, -, _, rfl, _, -, _, rfl, code, -, _, rfl, _, -, b, rfl, h⟩ := h
  obtain ⟨⟨holes, _⟩, hHoles, h⟩ := bind_eq_ok_iff.mp h
  injection h with h
  injection h with hRec hRest
  subst hRec hRest
  have hBehind := suffix_of_readMany (fun _ _ _ => suffix_of_readHole) hHoles
  simp only [id, ← append_assoc]
  exact ⟨⟨_, _, (append_assoc ..).symm⟩, hBehind.trans (suffix_append _ _)⟩

theorem code_of_readMany {recs : List ArchiveRecord}
    (h : readMany readRecord n bs = .ok (recs, rest)) : ∀ rec ∈ recs, rec.code <:+: bs := by
  induction n generalizing recs bs rest with
  | zero =>
    cases h
    exact fun _ hMem => absurd hMem not_mem_nil
  | succ n ih =>
    obtain ⟨r, rs, b, hHead, hTail, rfl⟩ := readMany_succ_eq_ok_iff.mp h
    obtain ⟨hCode, hRest⟩ := stretch_of_readRecord hHead
    exact forall_mem_cons.mpr ⟨hCode, fun rec hMem => (ih hTail rec hMem).trans hRest.isInfix⟩

theorem suffix_of_readHeader {header : ArchiveHeader} (h : readHeader bs = .ok (header, rest)) :
    rest <:+ bs := by
  simp only [readHeader, (exact_readLe 4 ()).bind_ok_iff, pure_eq_ok_iff] at h
  obtain ⟨_, -, _, rfl, _, -, _, rfl, _, -, _, rfl, _, -, _, rfl, _, -, _, rfl, _, -, _, rfl, h⟩ :=
    h
  injection h with _ hRest
  subst hRest
  simp only [← append_assoc]
  exact suffix_append _ _

theorem code_of_loadArchive (bytes : List Byte) :
    ∀ rec ∈ (loadArchive bytes).records, rec.code <:+: bytes := by
  unfold loadArchive
  cases hRead : readArchive bytes with
  | error e => exact fun _ hMem => absurd hMem not_mem_nil
  | ok out =>
    obtain ⟨⟨header, b₁⟩, hHeader, h⟩ := bind_eq_ok_iff.mp hRead
    obtain ⟨⟨records, b₂⟩, hRecords, h⟩ := bind_eq_ok_iff.mp h
    injection h with h
    subst h
    intro rec hMem
    exact (code_of_readMany hRecords rec hMem).trans (suffix_of_readHeader hHeader).isInfix

/-- A write into a hole that lies inside its record leaves every cell outside the place of
the record as it is. -/
theorem store_outside {hole : ArchiveHole} (h : hole.Inside rec) (buf data : List Byte)
    (hData : data.length = hole.width.toNat) (base q : Nat)
    (hq : q < base ∨ base + rec.code.length ≤ q) :
    (store buf ⟨base + hole.codeOffset.toNat, data⟩)[q]? = buf[q]? := by
  apply Overlay.store_of_not_covers
  rintro ⟨hFrom, hTo⟩
  unfold ArchiveHole.Inside at h
  dsimp only at hFrom hTo
  omega

/-- What an accepted archive promises: a hole of a stencil record whose end fits 32 bits
has one of the four widths and lies inside the code, so a write of it stays inside the
place of its record.  What is loaded has its code inside the bytes it was loaded from. -/
theorem validated_holes (set : StencilSet) (a : Archive) (h : (validateArchive a set).ok = true) :
    (∀ rec ∈ a.stencilRecords set, ∀ hole ∈ rec.holes, hole.EndFits →
      (hole.width = 1 ∨ hole.width = 2 ∨ hole.width = 4 ∨ hole.width = 8) ∧
      hole.Inside rec ∧
      ∀ (buf data : List Byte), data.length = hole.width.toNat → ∀ base q : Nat,
        q < base ∨ base + rec.code.length ≤ q →
        (store buf ⟨base + hole.codeOffset.toNat, data⟩)[q]? = buf[q]?) ∧
    ∀ bytes, a = loadArchive bytes → ∀ rec ∈ a.records, rec.code <:+: bytes := by
  refine ⟨fun rec hRec hole hHole hFits => ?_, fun bytes hLoaded => ?_⟩
  · obtain ⟨hWidth, hEnd⟩ := stencilRecord_checked h hRec hole hHole
    rw [Nat.mod_eq_of_lt hFits] at hEnd
    exact ⟨hWidth, hEnd, fun buf data hData => store_outside hEnd buf data hData⟩
  · rw [hLoaded]
    exact code_of_loadArchive bytes

/-! ### Accepted archives -/

/-- A set of one stencil that stands for no opcode. -/
def bareSet : StencilSet := ⟨{}, [{ name := "bare" }]⟩

/-- One record of eight bytes and the templates; the stub of the entry has this hole. -/
def bareArchive (holes : List ArchiveHole) (entryHole : ArchiveHole) : Archive where
  header := { manifestCount := 1, recordCount := 5 }
  records :=
    [{ name := "bare", code := replicate 8 0, holes := holes },
      { name := kInternalEntry, code := replicate 8 0, holes := [entryHole] },
      { name := kInternalDeoptThunk }, { name := kInternalDeoptExit },
      { name := kInternalSwitchCase }]

/-- A hole of the value of a destination register. -/
def bareHole (offset : BitVec 32) (width : BitVec 8) : ArchiveHole :=
  { codeOffset := offset, width := width, tag := .stream, source := .insDst }

theorem validated_holes_bare :
    (bareHole 4 4).Inside ((bareArchive [bareHole 4 4] (bareHole 0 4)).record 0) := by
  have hBounds := validated_holes bareSet (bareArchive [bareHole 4 4] (bareHole 0 4)) (by decide)
  have hFits : (bareHole 4 4).EndFits := by
    unfold ArchiveHole.EndFits
    decide
  exact (hBounds.1 _ mem_cons_self _ mem_cons_self hFits).2.1

/-- Accepted are overlapping holes, a hole of a template past its code, and a hole of a
stencil record whose end carries over 32 bits. -/
theorem validateArchive_not_sufficient :
    ((validateArchive (bareArchive [bareHole 0 4, bareHole 2 4] (bareHole 0 4)) bareSet).ok = true ∧
      ¬(bareHole 0 4).Apart (bareHole 2 4)) ∧
    ((validateArchive (bareArchive [] (bareHole 100 4)) bareSet).ok = true ∧
      ¬(bareHole 100 4).Inside ((bareArchive [] (bareHole 100 4)).record 1)) ∧
    ((validateArchive (bareArchive [bareHole 0xFFFFFFFF 1] (bareHole 0 4)) bareSet).ok = true ∧
      ¬(bareHole 0xFFFFFFFF 1).Inside
        ((bareArchive [bareHole 0xFFFFFFFF 1] (bareHole 0 4)).record 0)) := by
  decide

end B2Compiler.Instantiate
