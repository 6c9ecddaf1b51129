import B2Compiler.Codegen.Archive
import B2Compiler.Lib.Wire

/-!
# Archives as bytes

`buildArchive` makes the records of a stencil set from what the emitter leaves for each
of them; `serializeArchive` and `loadArchive` carry an archive through a byte string.
The format has 32-bit lengths and does not store `manifestHoles`.
-/

namespace B2Compiler.Instantiate

open Baseline List
open Lib

/-- The code of a body and its holes. -/
structure Emission where
  code : List Byte := []
  holes : List ArchiveHole := []

/-- What the emitter leaves: for a stencil with a pattern its body, unless it has none for
the opcode, and the code of each internal template. -/
structure Emitter where
  body : Stencil → Option Emission
  template : String → Emission

/-- The record of one stencil; without a body it is empty. -/
def buildRecord (e : Emitter) (d : Stencil) : ArchiveRecord :=
  let emitted := if d.pattern = [] then none else e.body d
  let body := emitted.getD {}
  { name := d.name
    code := body.code
    holes := body.holes
    manifestHoles := body.holes.countP fun h => h.tag = .plan }

def buildTemplate (e : Emitter) (name : String) : ArchiveRecord where
  name := name
  code := (e.template name).code
  holes := (e.template name).holes

def buildArchive (e : Emitter) (set : StencilSet) : Archive :=
  let records := set.stencils.map (buildRecord e) ++
    [kInternalEntry, kInternalDeoptThunk, kInternalDeoptExit, kInternalSwitchCase].map
      (buildTemplate e)
  { header :=
      { manifestCount := set.stencils.length % 2 ^ 32
        recordCount := records.length % 2 ^ 32 }
    records := records }

def nameBytes (name : String) : List Byte := name.toByteArray.data.toList.map UInt8.toBitVec

def putHole (h : ArchiveHole) : List Byte :=
  putWord 4 h.codeOffset ++ (leBytes 1 h.kind.ctorIdx ++ (putWord 1 h.width ++
    (leBytes 1 h.source.ctorIdx ++ (leBytes 1 h.tag.ctorIdx ++ (putWord 1 h.helperId ++
    (putWord 1 h.step ++ (leBytes 1 0 ++ putWord 4 h.imm)))))))

def putRecord (rec : ArchiveRecord) : List Byte :=
  leBytes 4 (nameBytes rec.name).length ++ (nameBytes rec.name ++
    (leBytes 4 rec.code.length ++ (rec.code ++
    (leBytes 4 rec.holes.length ++ rec.holes.flatMap putHole))))

def putHeader (h : ArchiveHeader) : List Byte :=
  leBytes 4 h.magic ++ (leBytes 4 h.version ++ (leBytes 4 h.targetArch ++
    (leBytes 4 h.abiHash ++ (leBytes 4 h.manifestCount ++ leBytes 4 h.recordCount))))

def serializeArchive (a : Archive) : List Byte :=
  putHeader a.header ++ a.records.flatMap putRecord

/-! ## Reading -/

/-- The name some bytes view; bytes that are no text make no name. -/
def bytesName (bs : List Byte) : String :=
  (String.fromUTF8? ⟨(bs.map UInt8.ofBitVec).toArray⟩).getD ""

def readBytes (n : Nat) : Reader Unit (List Byte) := fun bs =>
  if n ≤ bs.length then .ok (bs.take n, bs.drop n) else .error ()

def readHole : Reader Unit ArchiveHole := fun bs => do
  let (codeOffset, bs) ← readWord 4 32 () bs
  let (kind, bs) ← readLe 1 () bs
  let (width, bs) ← readWord 1 8 () bs
  let (source, bs) ← readLe 1 () bs
  let (tag, bs) ← readLe 1 () bs
  let (helperId, bs) ← readWord 1 8 () bs
  let (step, bs) ← readWord 1 8 () bs
  let (_, bs) ← readLe 1 () bs
  let (imm, bs) ← readWord 4 32 () bs
  return (⟨codeOffset, PatchKind.ofNat kind, width, PatchSource.ofNat source,
    HoleTag.ofNat tag, helperId, step, imm⟩, bs)

def readRecord : Reader Unit ArchiveRecord := fun bs => do
  let (nameLen, bs) ← readLe 4 () bs
  let (name, bs) ← readBytes nameLen bs
  let (codeSize, bs) ← readLe 4 () bs
  let (code, bs) ← readBytes codeSize bs
  let (holeCount, bs) ← readLe 4 () bs
  let (holes, bs) ← readMany readHole holeCount bs
  return ({ name := bytesName name, code := code, holes := holes }, bs)

def readHeader : Reader Unit ArchiveHeader := fun bs => do
  let (magic, bs) ← readLe 4 () bs
  let (version, bs) ← readLe 4 () bs
  let (targetArch, bs) ← readLe 4 () bs
  let (abiHash, bs) ← readLe 4 () bs
  let (manifestCount, bs) ← readLe 4 () bs
  let (recordCount, bs) ← readLe 4 () bs
  return (⟨magic, version, targetArch, abiHash, manifestCount, recordCount⟩, bs)

/-- The reader of the source goes on with zeros after a short read and gives the whole
archive up at its next test; here the short read ends it. -/
def readArchive : Reader Unit Archive := fun bs => do
  let (header, bs) ← readHeader bs
  let (records, bs) ← readMany readRecord header.recordCount bs
  return (⟨header, records⟩, bs)

/-- The archive of a byte string, empty when it is too short. -/
def loadArchive (bytes : List Byte) : Archive :=
  match readArchive bytes with
  | .ok (a, _) => a
  | .error _ => {}

/-- The record without the field the format lacks. -/
def ArchiveRecord.stored (rec : ArchiveRecord) : ArchiveRecord := { rec with manifestHoles := 0 }

/-- The archive as far as validation and instantiation read it. -/
def Archive.readPart (a : Archive) : Archive where
  header := a.header
  records := a.records.map ArchiveRecord.stored

/-- The lengths of a record fit their 32-bit fields. -/
structure ArchiveRecord.Storable (rec : ArchiveRecord) : Prop where
  name : (nameBytes rec.name).length < 256 ^ 4
  code : rec.code.length < 256 ^ 4
  holes : rec.holes.length < 256 ^ 4

structure Archive.Storable (a : Archive) : Prop where
  count : a.records.length < 256 ^ 4
  records : ∀ rec ∈ a.records, rec.Storable

/-! ## Reading what was written -/

theorem bytesName_nameBytes (name : String) : bytesName (nameBytes name) = name := by
  have hBytes : (⟨((nameBytes name).map UInt8.ofBitVec).toArray⟩ : ByteArray) =
      name.toByteArray := by
    unfold nameBytes
    rw [map_map]
    have hId : UInt8.ofBitVec ∘ UInt8.toBitVec = id := rfl
    rw [hId, map_id]
  unfold bytesName
  rw [hBytes, String.fromUTF8?, dif_pos name.isValidUTF8]
  rfl

theorem exact_readBytes (n : Nat) :
    Exact id (readBytes n) (fun bs : List Byte => bs.length = n) := by
  constructor
  · rintro bs rest rfl
    have hLe : bs.length ≤ (bs ++ rest).length := by simp
    rw [id, readBytes, if_pos hLe, take_left, drop_left]
  · intro bs out rest h
    unfold readBytes at h
    split at h
    · rename_i hLe
      injection h with h
      injection h with hOut hRest
      subst hOut hRest
      exact ⟨(take_append_drop n bs).symm, length_take_of_le hLe⟩
    · cases h

theorem patchKind_ofNat (k : PatchKind) : PatchKind.ofNat k.ctorIdx = k ∧ k.ctorIdx < 256 := by
  cases k <;> exact ⟨rfl, by decide⟩

theorem patchSource_ofNat (s : PatchSource) :
    PatchSource.ofNat s.ctorIdx = s ∧ s.ctorIdx < 256 := by
  cases s <;> exact ⟨rfl, by decide⟩

theorem holeTag_ofNat (t : HoleTag) : HoleTag.ofNat t.ctorIdx = t ∧ t.ctorIdx < 256 := by
  cases t <;> exact ⟨rfl, by decide⟩

theorem restores_readHole : Restores putHole readHole (fun _ => True) := by
  have hLe := fun (v : Nat) (rest : List Byte) (h : v < 256) =>
    (exact_readLe 1 ()).get_put v rest h
  have hW8 := exact_readWord (k := 1) (w := 8) rfl ()
  have hW32 := exact_readWord (k := 4) (w := 32) rfl ()
  rintro h rest -
  obtain ⟨hKind, hKindLt⟩ := patchKind_ofNat h.kind
  obtain ⟨hSource, hSourceLt⟩ := patchSource_ofNat h.source
  obtain ⟨hTag, hTagLt⟩ := holeTag_ofNat h.tag
  simp only [putHole, readHole, append_assoc, hW32.get_put _ _ trivial,
    hW8.get_put _ _ trivial, hLe _ _ hKindLt, hLe _ _ hSourceLt, hLe _ _ hTagLt,
    hLe 0 _ (by decide), ok_bind, hKind, hSource, hTag]
  rfl

theorem restores_readRecord :
    Restores putRecord readRecord (fun rec => rec.Storable ∧ rec.manifestHoles = 0) := by
  have hLe := exact_readLe 4 ()
  rintro rec rest ⟨⟨hName, hCode, hHoles⟩, hManifest⟩
  have hMany := restores_readHole.many rec.holes.length rec.holes rest ⟨rfl, fun _ _ => trivial⟩
  have hBytes := fun (bs rest : List Byte) => (exact_readBytes bs.length).get_put bs rest rfl
  simp only [id] at hBytes
  simp only [putRecord, readRecord, append_assoc, hLe.get_put _ _ hName,
    hLe.get_put _ _ hCode, hLe.get_put _ _ hHoles, hBytes, ok_bind, hMany, bytesName_nameBytes]
  rw [← hManifest]
  rfl

theorem restores_readHeader :
    Restores putHeader readHeader (fun h => h.magic < 256 ^ 4 ∧ h.version < 256 ^ 4 ∧
      h.targetArch < 256 ^ 4 ∧ h.abiHash < 256 ^ 4 ∧ h.manifestCount < 256 ^ 4 ∧
      h.recordCount < 256 ^ 4) := by
  have hLe := exact_readLe 4 ()
  rintro h rest ⟨h₁, h₂, h₃, h₄, h₅, h₆⟩
  simp only [putHeader, readHeader, append_assoc, hLe.get_put _ _ h₁, hLe.get_put _ _ h₂,
    hLe.get_put _ _ h₃, hLe.get_put _ _ h₄, hLe.get_put _ _ h₅, hLe.get_put _ _ h₆, ok_bind]
  rfl

/-- What is read back is what was written when every length fits. -/
theorem loadArchive_serializeArchive {a : Archive} (hStorable : a.Storable)
    (hCount : a.header.recordCount = a.records.length)
    (hHeader : a.header.magic < 256 ^ 4 ∧ a.header.version < 256 ^ 4 ∧
      a.header.targetArch < 256 ^ 4 ∧ a.header.abiHash < 256 ^ 4 ∧
      a.header.manifestCount < 256 ^ 4) :
    loadArchive (serializeArchive a) = a.readPart := by
  obtain ⟨h₁, h₂, h₃, h₄, h₅⟩ := hHeader
  have hRead := restores_readHeader a.header (a.records.flatMap putRecord)
    ⟨h₁, h₂, h₃, h₄, h₅, hCount ▸ hStorable.count⟩
  have hSame : a.records.flatMap putRecord = a.readPart.records.flatMap putRecord := by
    show _ = (a.records.map ArchiveRecord.stored).flatMap putRecord
    rw [flatMap_map]
    rfl
  have hRecords := restores_readRecord.many a.header.recordCount a.readPart.records [] ⟨by
    rw [hCount]
    exact length_map _, by
    intro rec hMem
    obtain ⟨r, hr, rfl⟩ := mem_map.mp hMem
    obtain ⟨hName, hCode, hHoles⟩ := hStorable.records r hr
    exact ⟨⟨hName, hCode, hHoles⟩, rfl⟩⟩
  rw [append_nil] at hRecords
  simp only [← hSame] at hRecords
  unfold loadArchive readArchive serializeArchive
  rw [hRead, ok_bind]
  dsimp only
  rw [hRecords]
  rfl

theorem length_nameBytes_bytesName (bs : List Byte) :
    (nameBytes (bytesName bs)).length ≤ bs.length := by
  unfold bytesName String.fromUTF8?
  split
  · rename_i hValid
    apply Nat.le_of_eq
    show (map UInt8.toBitVec (bs.map UInt8.ofBitVec)).length = _
    rw [length_map, length_map]
  · exact Nat.zero_le _

theorem storable_of_readRecord {bs rest : List Byte} {rec : ArchiveRecord}
    (h : readRecord bs = .ok (rec, rest)) : rec.Storable := by
  have hLe := exact_readLe 4 ()
  simp only [readRecord, hLe.bind_ok_iff, (exact_readBytes _).bind_ok_iff] at h
  obtain ⟨_, hName, _, rfl, name, rfl, _, rfl, _, hCode, _, rfl, code, rfl, _, rfl, _, hHoles, _,
    rfl, h⟩ := h
  obtain ⟨⟨holes, _⟩, hRead, h⟩ := bind_eq_ok_iff.mp h
  injection h with h
  injection h with hRec _
  subst hRec
  exact ⟨Nat.lt_of_le_of_lt (length_nameBytes_bytesName name) hName, hCode,
    length_of_readMany hRead ▸ hHoles⟩

theorem storable_loadArchive (bytes : List Byte) : (loadArchive bytes).Storable := by
  unfold loadArchive
  split
  · rename_i a rest hRead
    obtain ⟨⟨header, b₁⟩, hHeader, h⟩ := bind_eq_ok_iff.mp hRead
    obtain ⟨⟨records, b₂⟩, hRecords, h⟩ := bind_eq_ok_iff.mp h
    injection h with h
    injection h with hArchive _
    subst hArchive
    constructor
    · show records.length < 256 ^ 4
      rw [length_of_readMany hRecords]
      simp only [readHeader, (exact_readLe 4 ()).bind_ok_iff] at hHeader
      obtain ⟨_, -, _, -, _, -, _, -, _, -, _, -, _, -, _, -, _, -, _, -, _, hCount, _, -, h⟩ :=
        hHeader
      injection h with h
      injection h with hHeader' _
      subst hHeader'
      exact hCount
    · exact forall_of_readMany (fun _ _ _ h => storable_of_readRecord h) hRecords
  · exact ⟨by decide, by nofun⟩

/-- An archive of a build survives the trip through bytes exactly when its lengths fit the
format. -/
theorem archive_round_trip (e : Emitter) (set : StencilSet) :
    loadArchive (serializeArchive (buildArchive e set)) = (buildArchive e set).readPart ↔
      (buildArchive e set).Storable := by
  constructor
  · intro h
    have hLoaded := storable_loadArchive (serializeArchive (buildArchive e set))
    rw [h] at hLoaded
    constructor
    · have hCount := hLoaded.count
      rwa [show (buildArchive e set).readPart.records.length =
        (buildArchive e set).records.length from length_map _] at hCount
    · intro rec hMem
      obtain ⟨hName, hCode, hHoles⟩ :=
        hLoaded.records rec.stored (mem_map_of_mem hMem)
      exact ⟨hName, hCode, hHoles⟩
  · intro h
    apply loadArchive_serializeArchive h
    · exact Nat.mod_eq_of_lt h.count
    · exact ⟨show kStencilArchiveMagic < 256 ^ 4 by decide,
        show kStencilArchiveVersion < 256 ^ 4 by decide,
        show kTargetArchX86_64 < 256 ^ 4 by decide, show kT1AbiHashV1 < 256 ^ 4 by decide,
        Nat.mod_lt _ (by decide)⟩

theorem size_replicate_a (n : Nat) : (nameBytes (String.ofList (replicate n 'a'))).length = n := by
  have hUtf8 : (replicate n 'a').utf8Encode.size = n := by
    induction n with
    | zero => rfl
    | succ n ih =>
      rw [replicate_succ, utf8Encode_cons, ByteArray.size_append, ih, utf8Encode_singleton]
      have hOne : (String.utf8EncodeChar 'a').toByteArray.size = 1 := by decide
      rw [hOne, Nat.add_comm]
  unfold nameBytes
  rw [length_map]
  exact hUtf8

/-- A stencil whose name has `2 ^ 32` bytes is not read back. -/
theorem archive_long_name :
    ¬∀ (e : Emitter) (set : StencilSet), loadArchive (serializeArchive (buildArchive e set)) =
      (buildArchive e set).readPart := by
  intro h
  let d : Stencil := { name := String.ofList (replicate (256 ^ 4) 'a') }
  let e : Emitter := ⟨fun _ => none, fun _ => {}⟩
  have hTrip := h e ⟨{}, [d]⟩
  have hLoaded := storable_loadArchive (serializeArchive (buildArchive e ⟨{}, [d]⟩))
  rw [hTrip] at hLoaded
  have hRec := hLoaded.records (buildRecord e d).stored mem_cons_self
  exact absurd hRec.name (by
    show ¬(nameBytes (String.ofList (replicate (256 ^ 4) 'a'))).length < 256 ^ 4
    rw [size_replicate_a]
    exact Nat.lt_irrefl _)

end B2Compiler.Instantiate
