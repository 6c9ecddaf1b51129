import B2Compiler.Baseline.StencilSet
import B2Compiler.Lib.X86

/-!
# The stencil archive

An archive holds the machine code of the stencils: one record for each entry of the
stencil set, in its order, and behind them the internal templates the instantiator
copies (entry stub, deoptimization thunk and exit, switch case).  A record lists the
holes of its code, each with its width and the channel its value comes from.
`validateArchive` is what a load checks before any code is copied.
-/

namespace B2Compiler.Instantiate

open Rbc
open Baseline
open Lib.X86 (Byte)

/-! ## Records -/

/-- The channel a hole takes its value from. -/
inductive HoleTag where
  | plan | stream | helper | layout | cpPayload | switchMatch | switchTarget
  deriving DecidableEq, Repr

/-- One declared hole; `step` is the fusion step a stream value is read from and `imm` a
slot delta. -/
structure ArchiveHole where
  codeOffset : BitVec 32 := 0
  kind : PatchKind := .imm32
  width : BitVec 8 := 4
  source : PatchSource := .none
  tag : HoleTag := .plan
  helperId : BitVec 8 := 0
  step : BitVec 8 := 0
  imm : BitVec 32 := 0
  deriving DecidableEq, Repr

/-- `manifestHoles` counts the plan holes of a stencil; neither validation nor
instantiation looks at it. -/
structure ArchiveRecord where
  name : String := ""
  code : List Byte := []
  holes : List ArchiveHole := []
  manifestHoles : Nat := 0
  deriving DecidableEq, Repr

def kStencilArchiveMagic : Nat := 0x32736172

def kStencilArchiveVersion : Nat := 1

def kTargetArchX86_64 : Nat := 1

def kT1AbiHashV1 : Nat := 0xB2C0DE01

structure ArchiveHeader where
  magic : Nat := kStencilArchiveMagic
  version : Nat := kStencilArchiveVersion
  targetArch : Nat := kTargetArchX86_64
  abiHash : Nat := kT1AbiHashV1
  manifestCount : Nat := 0
  recordCount : Nat := 0
  deriving DecidableEq, Repr

structure Archive where
  header : ArchiveHeader := {}
  records : List ArchiveRecord := []
  deriving DecidableEq, Repr

def kInternalEntry : String := "__entry"

def kInternalDeoptThunk : String := "__deopt_thunk"

def kInternalDeoptExit : String := "__deopt_exit"

def kInternalSwitchCase : String := "__switch_case"

namespace Archive

/-- The record of a stencil. -/
def record (a : Archive) (id : Nat) : ArchiveRecord := a.records.getD id {}

def internal (a : Archive) (name : String) : Option ArchiveRecord :=
  (a.records.drop a.header.manifestCount).find? fun r => r.name == name

end Archive

/-- The stencil with a name; zero when there is none. -/
def findStencil (set : StencilSet) (name : String) : Nat :=
  (set.stencils.findIdx? fun s => s.name == name).getD 0

/-! ## Validation -/

/-- The complaint about the holes of one record.  The plan holes are matched in order
with the holes of the descriptor by source; `left` is what is left of those. -/
def holesError (rec : ArchiveRecord) : List ArchiveHole → List PatchSiteDesc → Option String
  | [], _ => none
  | h :: rest, left =>
    let here := "record '" ++ rec.name ++ "' hole "
    if (h.codeOffset.toNat + h.width.toNat) % 2 ^ 32 > rec.code.length then
      some (here ++ "at " ++ toString h.codeOffset.toNat ++ " exceeds code size " ++
        toString rec.code.length)
    else if h.width ≠ 1 ∧ h.width ≠ 2 ∧ h.width ≠ 4 ∧ h.width ≠ 8 then
      some (here ++ "width " ++ toString h.width.toNat ++ " is not 1/2/4/8")
    else if h.tag ≠ .plan then holesError rec rest left
    else
      match left.dropWhile fun p => p.source ≠ h.source with
      | [] =>
        some ("record '" ++ rec.name ++ "' Plan hole (source " ++
          toString h.source.ctorIdx ++ ") not present in the manifest hole list in order")
      | _ :: left => holesError rec rest left

/-- The complaint about the record of one stencil. -/
def recordError (d : Stencil) (rec : ArchiveRecord) (i : Nat) : Option String :=
  if rec.name ≠ d.name then
    some ("record " ++ toString i ++ " name '" ++ rec.name ++ "' != manifest '" ++ d.name ++ "'")
  else
    (holesError rec rec.holes d.patches).or
      (if d.availability = .available ∧ rec.code = [] ∧ d.pattern ≠ [] ∧
          d.firstOp ≠ .tableswitch ∧ d.firstOp ≠ .lookupswitch then
        some ("Available stencil '" ++ rec.name ++ "' has an empty archive record")
      else none)

/-- The complaint about the internal templates. -/
def templatesError (a : Archive) : Option String :=
  ([kInternalEntry, kInternalDeoptThunk, kInternalDeoptExit, kInternalSwitchCase].findSome?
    fun name =>
      if (a.internal name).isNone then some ("internal template '" ++ name ++ "' missing")
      else none).or
    (if ((a.internal kInternalEntry).getD {}).holes.length ≠ 1 then
      some "__entry must carry exactly one target hole"
    else none)

/-- The first complaint about an archive. -/
def archiveError (a : Archive) (set : StencilSet) : Option String :=
  if a.header.magic ≠ kStencilArchiveMagic then some "archive magic mismatch"
  else if a.header.version ≠ kStencilArchiveVersion then
    some ("archive version " ++ toString a.header.version ++ " != supported " ++
      toString kStencilArchiveVersion)
  else if a.header.targetArch ≠ kTargetArchX86_64 then some "archive target arch is not x86-64"
  else if a.header.abiHash ≠ kT1AbiHashV1 then
    some "archive abi hash mismatch (frame contract changed?)"
  else if a.header.manifestCount ≠ set.stencils.length then
    some ("archive manifest count " ++ toString a.header.manifestCount ++ " != set size " ++
      toString set.stencils.length)
  else if a.records.length < a.header.manifestCount then
    some "archive has fewer records than its manifest count"
  else
    ((set.stencils.zip a.records).zipIdx.findSome? fun p => recordError p.1.1 p.1.2 p.2).or
      (templatesError a)

structure ArchiveCheckResult where
  ok : Bool
  error : String
  deriving DecidableEq, Repr

def validateArchive (a : Archive) (set : StencilSet) : ArchiveCheckResult :=
  match archiveError a set with
  | some e => ⟨false, e⟩
  | none => ⟨true, ""⟩

end B2Compiler.Instantiate
