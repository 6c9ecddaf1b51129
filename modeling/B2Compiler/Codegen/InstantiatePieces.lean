import B2Compiler.Codegen.InstantiateLayout

/-!
# The buffer of an instantiated method

The pieces of a method tile its buffer.  When the holes of every copied record have
room for what is put into them, inside the record and apart from each other, the
buffer can be read back piece by piece: a filled hole holds what was put into it, and
every other byte is the byte of the record.
-/

namespace B2Compiler.Instantiate

open Codegen (le32)
open Lib.X86 (Byte)
open Lib.Overlay List
open Lib.Tiling

/-! ## Room -/

/-- Bytes put into a hole of an instance. -/
def fillSize (h : ArchiveHole) : Nat :=
  match h.tag with
  | .helper | .cpPayload => 8
  | _ => 4

/-- Bytes put into a hole of a template. -/
def wordSize (_ : ArchiveHole) : Nat := 4

/-- The holes of a record have room for what is put into them, inside the record and
apart from each other. -/
def Roomy (size : ArchiveHole → Nat) (r : ArchiveRecord) : Prop :=
  (∀ h ∈ r.holes, size h ≤ h.width.toNat ∧ h.codeOffset.toNat + size h ≤ r.code.length) ∧
    r.holes.Pairwise fun g h => g.codeOffset.toNat + size g ≤ h.codeOffset.toNat ∨
      h.codeOffset.toNat + size h ≤ g.codeOffset.toNat

instance (size : ArchiveHole → Nat) (r : ArchiveRecord) : Decidable (Roomy size r) :=
  inferInstanceAs (Decidable (_ ∧ _))

/-- The fills of a piece go into holes of its record, stay inside them and inside the
copy, and do not meet. -/
structure Piece.Fits (p : Piece) : Prop where
  declared : ∀ f ∈ p.fills, f.hole ∈ p.record.holes
  room : ∀ f ∈ p.fills, f.data.length ≤ f.hole.width.toNat ∧
    f.hole.codeOffset.toNat + f.data.length ≤ p.record.code.length
  apart : p.fills.Pairwise fun f g =>
    f.hole.codeOffset.toNat + f.data.length ≤ g.hole.codeOffset.toNat ∨
      g.hole.codeOffset.toNat + g.data.length ≤ f.hole.codeOffset.toNat

theorem fits_of_roomy {size : ArchiveHole → Nat} {r : ArchiveRecord} {base : Nat}
    {fills : List Fill} (hroomy : Roomy size r) (hholes : fills.map Fill.hole = r.holes)
    (hsize : ∀ f ∈ fills, f.data.length = size f.hole) : (⟨base, r, fills⟩ : Piece).Fits where
  declared := by
    intro f hf
    have hmem := mem_map_of_mem (f := Fill.hole) hf
    rw [hholes] at hmem
    exact hmem
  room := by
    intro f hf
    have hmem := mem_map_of_mem (f := Fill.hole) hf
    rw [hholes] at hmem
    rw [hsize f hf]
    exact hroomy.1 f.hole hmem
  apart := by
    have hpair := hroomy.2
    rw [← hholes, pairwise_map] at hpair
    refine hpair.imp_of_mem fun {f g} hf hg hfg => ?_
    rw [hsize f hf, hsize g hg]
    exact hfg

section Buffer

variable {p : Piece} {f : Fill}

theorem Piece.Fits.pos (hp : p.Fits) (hf : f ∈ p.fills) (hstop : p.stop < 2 ^ 32) :
    (f.write p.base).pos = p.base + f.hole.codeOffset.toNat := by
  have hroom := (hp.room f hf).2
  unfold Piece.stop at hstop
  exact u32_of_lt (by omega)

theorem Piece.Fits.covers (hp : p.Fits) (hf : f ∈ p.fills) (hstop : p.stop < 2 ^ 32) {q : Nat}
    (hq : (f.write p.base).Covers q) : p.base ≤ q ∧ q < p.stop := by
  have hroom := (hp.room f hf).2
  have hpos := hp.pos hf hstop
  obtain ⟨hlo, hhi⟩ := hq
  rw [hpos] at hlo hhi
  have hdata : (f.write p.base).data = f.data := rfl
  rw [hdata] at hhi
  unfold Piece.stop
  omega

theorem Piece.Fits.same (hp : p.Fits) (hstop : p.stop < 2 ^ 32) {g : Fill} (hf : f ∈ p.fills)
    (hg : g ∈ p.fills) {q : Nat} (hfq : (f.write p.base).Covers q)
    (hgq : (g.write p.base).Covers q) : f = g := by
  by_contra hne
  have happart : f.hole.codeOffset.toNat + f.data.length ≤ g.hole.codeOffset.toNat ∨
      g.hole.codeOffset.toNat + g.data.length ≤ f.hole.codeOffset.toNat := by
    have hsym : Std.Symm fun f g : Fill =>
        f.hole.codeOffset.toNat + f.data.length ≤ g.hole.codeOffset.toNat ∨
          g.hole.codeOffset.toNat + g.data.length ≤ f.hole.codeOffset.toNat := ⟨fun _ _ => Or.symm⟩
    exact hp.apart.forall hf hg hne
  obtain ⟨hf₁, hf₂⟩ := hfq
  obtain ⟨hg₁, hg₂⟩ := hgq
  rw [hp.pos hf hstop] at hf₁ hf₂
  rw [hp.pos hg hstop] at hg₁ hg₂
  have hfdata : (f.write p.base).data = f.data := rfl
  have hgdata : (g.write p.base).data = g.data := rfl
  rw [hfdata] at hf₂
  rw [hgdata] at hg₂
  omega

theorem mem_lateWrites {w : Write Byte} (h : w ∈ p.lateWrites) :
    ∃ f ∈ p.fills, w = f.write p.base := by
  obtain ⟨f, hf, rfl⟩ := mem_map.mp h
  exact ⟨f, (mem_filter.mp hf).1, rfl⟩

theorem Piece.Fits.inside (hp : p.Fits) (hstop : p.stop < 2 ^ 32) {w : Write Byte}
    (hw : w ∈ p.writes ∨ w ∈ p.lateWrites) {q : Nat} (hq : w.Covers q) :
    p.base ≤ q ∧ q < p.stop := by
  rcases hw with hw | hw
  · rcases mem_cons.mp hw with rfl | hw
    · exact hq
    · obtain ⟨f, hf, rfl⟩ := mem_map.mp hw
      exact hp.covers (mem_filter.mp hf).1 hstop hq
  · obtain ⟨f, hf, rfl⟩ := mem_lateWrites hw
    exact hp.covers hf hstop hq

/-- All writes of a method, in order. -/
def allWrites (pieces : List Piece) : List (Write Byte) :=
  pieces.flatMap Piece.writes ++ pieces.flatMap Piece.lateWrites

variable {pieces : List Piece} {total : Nat}

theorem allWrites_split (htiles : Tiles Piece.base Piece.stop pieces 0 total)
    (hfits : ∀ p ∈ pieces, p.Fits) (htotal : total < 2 ^ 32) (hp : p ∈ pieces) :
    ∃ before after, allWrites pieces = before ++ ⟨p.base, p.record.code⟩ :: after ∧
      (∀ w ∈ after, ∀ q, p.base ≤ q → q < p.stop → w.Covers q → ∃ f ∈ p.fills, w = f.write p.base) ∧
      ∀ f ∈ p.fills, f.write p.base ∈ after := by
  obtain ⟨front, back, hsplit⟩ := append_of_mem hp
  have hstop : ∀ r ∈ pieces, r.stop < 2 ^ 32 := by
    intro r hr
    have := (htiles.bounds hr).2.2
    omega
  have hpair := htiles.pairwise
  rw [hsplit, pairwise_append, pairwise_cons] at hpair
  obtain ⟨_, ⟨hback, _⟩, hfront⟩ := hpair
  have hmemBack : ∀ r ∈ back, r ∈ pieces := by
    intro r hr
    rw [hsplit]
    exact mem_append_right front (mem_cons_of_mem p hr)
  refine ⟨front.flatMap Piece.writes, (p.fills.filter fun f => !f.late).map (Fill.write p.base) ++
    (back.flatMap Piece.writes ++ pieces.flatMap Piece.lateWrites), ?_, ?_, ?_⟩
  · rw [allWrites]
    nth_rewrite 1 [hsplit]
    rw [flatMap_append, flatMap_cons, Piece.writes]
    simp only [append_assoc, cons_append]
  · intro w hw q hlo hhi hq
    rcases mem_append.mp hw with hw | hw
    · obtain ⟨f, hf, rfl⟩ := mem_map.mp hw
      exact ⟨f, (mem_filter.mp hf).1, rfl⟩
    rcases mem_append.mp hw with hw | hw
    · obtain ⟨r, hr, hw⟩ := mem_flatMap.mp hw
      have hmem := hmemBack r hr
      have hin := (hfits r hmem).inside (hstop r hmem) (Or.inl hw) hq
      have hafter := hback r hr
      omega
    · obtain ⟨r, hr, hlate⟩ := mem_flatMap.mp hw
      have hin := (hfits r hr).inside (hstop r hr) (Or.inr hlate) hq
      rw [hsplit] at hr
      rcases mem_append.mp hr with hr | hr
      · have hbefore := hfront r hr p mem_cons_self
        omega
      · rcases mem_cons.mp hr with rfl | hr
        · exact mem_lateWrites hlate
        · have hafter := hback r hr
          omega
  · intro f hf
    by_cases hlate : f.late = true
    · refine mem_append_right _ (mem_append_right _ ?_)
      refine mem_flatMap.mpr ⟨p, hp, mem_map_of_mem ?_⟩
      exact mem_filter.mpr ⟨hf, hlate⟩
    · refine mem_append_left _ (mem_map_of_mem ?_)
      exact mem_filter.mpr ⟨hf, by simpa using hlate⟩

/-- The bytes that are executed. -/
def blockOf (total : Nat) (pieces : List Piece) : List Byte :=
  writeAll (staging total pieces) (pieces.flatMap Piece.lateWrites)

theorem blockOf_eq (total : Nat) (pieces : List Piece) :
    blockOf total pieces = writeAll (replicate total 0xCC) (allWrites pieces) := by
  rw [blockOf, staging, writeAll, writeAll, writeAll, allWrites, foldl_append]

@[simp] theorem length_blockOf (total : Nat) (pieces : List Piece) :
    (blockOf total pieces).length = total := by
  rw [blockOf_eq, length_writeAll, length_replicate]

variable (htiles : Tiles Piece.base Piece.stop pieces 0 total) (hfits : ∀ p ∈ pieces, p.Fits)
  (htotal : total < 2 ^ 32) (hp : p ∈ pieces)
include htiles hfits htotal hp

theorem blockOf_copied {k : Nat} (hk : k < p.record.code.length)
    (hnone : ∀ f ∈ p.fills, ¬(f.write p.base).Covers (p.base + k)) :
    (blockOf total pieces)[p.base + k]? = p.record.code[k]? := by
  obtain ⟨before, after, heq, hafter, _⟩ := allWrites_split htiles hfits htotal hp
  have hbound := (htiles.bounds hp).2.2
  have hin : p.base + k < p.stop := by
    unfold Piece.stop
    omega
  have hcopy : Write.Covers ⟨p.base, p.record.code⟩ (p.base + k) :=
    ⟨Nat.le_add_right p.base k, hin⟩
  have hlast : ∀ w ∈ after, ¬w.Covers (p.base + k) := by
    intro w hw hcov
    obtain ⟨f, hf, rfl⟩ := hafter w hw _ (Nat.le_add_right p.base k) hin hcov
    exact hnone f hf hcov
  rw [blockOf_eq, heq, writeAll_last (by rw [length_replicate]; omega) hcopy hlast]
  rw [Nat.add_sub_cancel_left]

theorem blockOf_filled (hf : f ∈ p.fills) :
    ((blockOf total pieces).drop (p.base + f.hole.codeOffset.toNat)).take f.data.length =
      f.data := by
  obtain ⟨before, after, heq, hafter, hall⟩ := allWrites_split htiles hfits htotal hp
  have hbound := (htiles.bounds hp).2.2
  have hstop : p.stop < 2 ^ 32 := by omega
  have hroom := ((hfits p hp).room f hf).2
  have hpos := (hfits p hp).pos hf hstop
  apply ext_getElem?
  intro k
  by_cases hk : k < f.data.length
  · have hcov : (f.write p.base).Covers (p.base + f.hole.codeOffset.toNat + k) := by
      rw [Write.Covers, hpos]
      exact ⟨by omega, Nat.add_lt_add_left hk _⟩
    obtain ⟨hlo, hhi⟩ := (hfits p hp).covers hf hstop hcov
    rw [getElem?_take_of_lt hk, getElem?_drop, getElem?_eq_getElem hk]
    have hsplit : allWrites pieces = (before ++ [⟨p.base, p.record.code⟩]) ++ after := by
      rw [heq, append_assoc]
      rfl
    rw [blockOf_eq, hsplit, writeAll, foldl_append]
    refine writeAll_agree ?_ ?_ (Or.inr ⟨_, hall f hf, hcov⟩)
    · show _ < (writeAll _ _).length
      rw [length_writeAll, length_replicate]
      omega
    intro w hw hwq
    obtain ⟨g, hg, rfl⟩ := hafter w hw _ hlo hhi hwq
    have hsame := (hfits p hp).same hstop hf hg hcov hwq
    subst hsame
    rw [hpos, Nat.add_sub_cancel_left]
    exact getElem?_eq_getElem hk
  · rw [getElem?_eq_none (by rw [length_take]; omega), getElem?_eq_none (by omega)]

end Buffer

/-- The four bytes at `pos` are a displacement to `target`. -/
def Lands (block : List Byte) (pos target : Nat) : Prop :=
  ∃ rel : BitVec 32, (block.drop pos).take 4 = le32 rel ∧ (pos : Int) + 4 + rel.toInt = target

theorem rel32_toInt {target pos : Nat} (htarget : target < 2 ^ 30) (hpos : pos < 2 ^ 30) :
    (rel32 target pos).toInt = target - (pos + 4) := by
  have hbehind : BitVec.ofNat 32 pos + 4 = BitVec.ofNat 32 (pos + 4) := (BitVec.ofNat_add ..).symm
  have hto : (BitVec.ofNat 32 target).toInt = target := by
    rw [BitVec.toInt_ofNat']
    exact Int.bmod_eq_of_le (by omega) (by omega)
  have hfrom : (BitVec.ofNat 32 (pos + 4)).toInt = pos + 4 := by
    rw [BitVec.toInt_ofNat']
    exact Int.bmod_eq_of_le (by omega) (by omega)
  rw [rel32, hbehind, BitVec.toInt_sub, hto, hfrom]
  exact Int.bmod_eq_of_le (by omega) (by omega)

theorem lands_of_fill {pieces : List Piece} {total : Nat} {p : Piece} {h : ArchiveHole}
    {target : Nat} (htiles : Tiles Piece.base Piece.stop pieces 0 total)
    (hfits : ∀ p ∈ pieces, p.Fits) (htotal : total ≤ kMaxCodeBytes) (hp : p ∈ pieces)
    (hf : relFill p.base target h ∈ p.fills) (htarget : target ≤ total) :
    Lands (blockOf total pieces) (p.base + h.codeOffset.toNat) target := by
  have hsmall : total < 2 ^ 30 := by
    unfold kMaxCodeBytes at htotal
    omega
  have hbound := (htiles.bounds hp).2.2
  have hroom := ((hfits p hp).room _ hf).2
  have hread := blockOf_filled htiles hfits (by omega) hp hf
  have hhole : (relFill p.base target h).hole = h := rfl
  have hpos : holePos p.base h = p.base + h.codeOffset.toNat :=
    (hfits p hp).pos hf (by omega)
  rw [hhole] at hroom hread
  refine ⟨rel32 target (holePos p.base h), hread, ?_⟩
  unfold Piece.stop at hbound
  rw [rel32_toInt (by omega) (by omega), hpos]
  push_cast
  omega

end B2Compiler.Instantiate
