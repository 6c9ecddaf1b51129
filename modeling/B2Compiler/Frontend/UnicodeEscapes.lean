import Mathlib.Data.List.Flatten
import Mathlib.Data.List.Sort
import Mathlib.Data.List.TakeWhile

/-!
# Unicode escapes

The lexer reads the source with its unicode escapes replaced, and keeps for every byte of
the result the offset in the source it comes from.  A source without escapes is read as it
is, and its map stays empty.
-/

namespace B2Compiler.Frontend

open List

def backslash : UInt8 := 0x5C

def letterU : UInt8 := 0x75

def encodeUtf8 (c : Nat) : List UInt8 :=
  if c < 0x80 then [.ofNat c]
  else if c < 0x800 then [.ofNat (0xC0 ||| c >>> 6), .ofNat (0x80 ||| c &&& 0x3F)]
  else if c < 0x10000 then
    [.ofNat (0xE0 ||| c >>> 12), .ofNat (0x80 ||| c >>> 6 &&& 0x3F), .ofNat (0x80 ||| c &&& 0x3F)]
  else
    [.ofNat (0xF0 ||| c >>> 18), .ofNat (0x80 ||| c >>> 12 &&& 0x3F),
      .ofNat (0x80 ||| c >>> 6 &&& 0x3F), .ofNat (0x80 ||| c &&& 0x3F)]

def hexVal (b : UInt8) : Option Nat :=
  let c := b.toNat
  if 0x30 ≤ c ∧ c ≤ 0x39 then some (c - 0x30)
  else if 0x61 ≤ c ∧ c ≤ 0x66 then some (c - 0x61 + 10)
  else if 0x41 ≤ c ∧ c ≤ 0x46 then some (c - 0x41 + 10)
  else none

/-- A byte of the translated buffer with its entry of the map. -/
structure Cell where
  byte : UInt8
  raw : Nat
  deriving DecidableEq

/-- Cells, diagnostics and whether the source is left as it is. -/
structure Translation where
  cells : List Cell := []
  errs : List (Nat × String) := []
  escaped : Bool := false

namespace Translation

/-- The bytes of the source from `i` up to `j`. -/
def rawRun (raw : List UInt8) (i j : Nat) : List Cell :=
  (range' i (j - i)).map fun q => ⟨raw.getD q 0, q⟩

/-- The first offset from `i` on where the byte is another one. -/
def skip (raw : List UInt8) (b : UInt8) (i : Nat) : Nat :=
  i + ((raw.drop i).takeWhile (· == b)).length

/-- The four digits behind an escape, as far as they are digits. -/
def hexDigits (raw : List UInt8) (p : Nat) : List Nat := ((raw.drop p).take 4).filterMap hexVal

def hexValue (digits : List Nat) : Nat := digits.foldl (fun v d => v * 16 + d) 0

def emit (cells : List Cell) (errs : List (Nat × String)) (escaped : Bool) (t : Translation) :
    Translation :=
  ⟨cells ++ t.cells, errs ++ t.errs, escaped || t.escaped⟩

def loop (raw : List UInt8) : Nat → Nat → Translation
  | 0, _ => {}
  | fuel + 1, i =>
    if raw.length ≤ i then {}
    else if raw[i]? ≠ some backslash then
      emit (rawRun raw i (i + 1)) [] false (loop raw fuel (i + 1))
    else
      let j := skip raw backslash i
      let followedByU : Bool := raw[j]? = some letterU
      if followedByU ∧ (j - i) % 2 = 1 then
        let p := skip raw letterU j
        let digits := hexDigits raw p
        if digits.length = 4 then
          emit (rawRun raw i (j - 1) ++ (encodeUtf8 (hexValue digits)).map (⟨·, j - 1⟩)) [] true
            (loop raw fuel (p + 4))
        else
          let stop := min raw.length (p + 4)
          emit (rawRun raw i stop) [(j - 1, "invalid unicode escape")] true (loop raw fuel stop)
      else emit (rawRun raw i j) [] followedByU (loop raw fuel j)

end Translation

/-- The buffer, and the map, which is empty for the identity. -/
structure LexRunner where
  source : List UInt8
  text : List UInt8
  map : List Nat
  errs : List (Nat × String)

def LexRunner.translate (source : List UInt8) : LexRunner :=
  let t := Translation.loop source source.length 0
  if t.escaped then ⟨source, t.cells.map Cell.byte, t.cells.map Cell.raw, t.errs⟩
  else ⟨source, source, [], t.errs⟩

def LexRunner.rawAt (r : LexRunner) (tpos : Nat) : Nat :=
  if r.map = [] then tpos else r.map.getD tpos r.source.length

/-! ## Eligible escapes -/

namespace Escapes

open Translation

variable (raw : List UInt8)

/-- The backslashes directly before an offset. -/
def backslashesBefore : Nat → Nat
  | 0 => 0
  | i + 1 => if raw[i]? = some backslash then backslashesBefore i + 1 else 0

/-- A backslash behind an even number of backslashes, with a `u` behind it. -/
def Eligible (i : Nat) : Prop :=
  raw[i]? = some backslash ∧ backslashesBefore raw i % 2 = 0 ∧ raw[i + 1]? = some letterU

instance (i : Nat) : Decidable (Eligible raw i) := inferInstanceAs (Decidable (_ ∧ _ ∧ _))

/-- The offset behind the `u`s of the escape at `i`. -/
def digitsAt (i : Nat) : Nat := skip raw letterU (i + 1)

def WellFormed : Prop := ∀ i, Eligible raw i → (hexDigits raw (digitsAt raw i)).length = 4

instance : Decidable (WellFormed raw) :=
  decidable_of_iff
    (∀ i < raw.length, Eligible raw i → (hexDigits raw (digitsAt raw i)).length = 4)
    ⟨fun h i hel => h i (List.getElem?_eq_some_iff.mp hel.1).1 hel, fun h i _ => h i⟩

/-- The offset lies in an escape, behind its backslash. -/
def Inside (i : Nat) : Prop := ∃ k, k < i ∧ Eligible raw k ∧ i < digitsAt raw k + 4

instance (i : Nat) : Decidable (Inside raw i) := inferInstanceAs (Decidable (∃ k, k < i ∧ _))

/-- The UTF-8 form of a number; half of a surrogate pair is written like a character of the
same size. -/
def utf8Form (v : Nat) : List UInt8 :=
  if h : v.isValidChar then String.utf8EncodeChar (Char.ofNatAux v h) else encodeUtf8 v

/-- What becomes of the byte at an offset: the character of an escape that begins there,
nothing inside of one, and else the byte itself. -/
def piece (i : Nat) : List Cell :=
  if Eligible raw i then
    (utf8Form (hexValue (hexDigits raw (digitsAt raw i)))).map (⟨·, i⟩)
  else if Inside raw i then []
  else [⟨raw.getD i 0, i⟩]

def translated : List Cell := (range raw.length).flatMap (piece raw)

theorem encodeUtf8_char (c : Char) : encodeUtf8 c.toNat = String.utf8EncodeChar c := by
  have hlast (x : Nat) : 0x80 ||| x &&& 0x3F = x % 64 + 0x80 := by
    have hlow : ∀ x < 64, 0x80 ||| x = x + 0x80 := by decide
    rw [show (0x3F : Nat) = 2 ^ 6 - 1 from rfl, Nat.and_two_pow_sub_one_eq_mod]
    exact hlow _ (Nat.mod_lt _ (by decide))
  have htwo : ∀ x < 32, 0xC0 ||| x = x % 32 + 0xC0 := by decide
  have hthree : ∀ x < 16, 0xE0 ||| x = x % 16 + 0xE0 := by decide
  have hfour : ∀ x < 8, 0xF0 ||| x = x % 8 + 0xF0 := by decide
  have hc := c.valid
  show encodeUtf8 c.val.toNat = _
  unfold encodeUtf8 String.utf8EncodeChar
  simp only [UInt32.isValidChar, Nat.isValidChar] at hc
  generalize c.val.toNat = v at hc
  simp only [hlast, Nat.shiftRight_eq_div_pow, ← Nat.lt_succ_iff, Nat.succ_eq_add_one,
    Nat.reduceAdd, Nat.reducePow]
  split_ifs
  · rfl
  · rw [htwo _ (by omega)]
  · rw [hthree _ (by omega)]
  · rw [hfour _ (by omega)]

theorem utf8Form_eq (v : Nat) : utf8Form v = encodeUtf8 v := by
  unfold utf8Form
  by_cases h : v.isValidChar
  · rw [dif_pos h]
    exact (encodeUtf8_char _).symm
  · rw [dif_neg h]

variable {raw}

/-! ## The loop -/

theorem takeWhile_run (b : UInt8) (s : List UInt8) :
    (∀ q < (s.takeWhile (· == b)).length, s[q]? = some b) ∧
      s[(s.takeWhile (· == b)).length]? ≠ some b := by
  induction s with
  | nil => simp
  | cons a s ih =>
    by_cases h : a = b
    · rw [takeWhile_cons_of_pos (by simpa using h), length_cons]
      refine ⟨fun q hq => ?_, ih.2⟩
      cases q with
      | zero => exact congrArg some h
      | succ q => exact ih.1 q (Nat.lt_of_succ_lt_succ hq)
    · rw [takeWhile_cons_of_neg (by simpa using h)]
      simp [h]

theorem le_skip (b : UInt8) (i : Nat) : i ≤ skip raw b i := Nat.le_add_right _ _

theorem getElem?_of_lt_skip {b : UInt8} {i q : Nat} (hlo : i ≤ q) (hhi : q < skip raw b i) :
    raw[q]? = some b := by
  unfold skip at hhi
  have hrun := (takeWhile_run b (raw.drop i)).1 (q - i) (by omega)
  rwa [getElem?_drop, Nat.add_sub_cancel' hlo] at hrun

theorem getElem?_skip_ne (b : UInt8) (i : Nat) : raw[skip raw b i]? ≠ some b := by
  have hstop := (takeWhile_run b (raw.drop i)).2
  rwa [getElem?_drop] at hstop

theorem skip_le_length (b : UInt8) {i : Nat} (h : i ≤ raw.length) : skip raw b i ≤ raw.length := by
  by_contra hlt
  have hrun := getElem?_of_lt_skip (b := b) h (Nat.lt_of_not_le hlt)
  rw [getElem?_eq_none le_rfl] at hrun
  cases hrun

theorem backslashesBefore_run {i m : Nat} (hFresh : backslashesBefore raw i = 0)
    (h : ∀ q, i ≤ q → q < i + m → raw[q]? = some backslash) :
    backslashesBefore raw (i + m) = m := by
  induction m with
  | zero => exact hFresh
  | succ m ih =>
    rw [← Nat.add_assoc, backslashesBefore, if_pos (h (i + m) (by omega) (by omega)),
      ih fun q hlo hhi => h q hlo (by omega)]

/-- Four digits behind an offset are bytes of the source and no backslashes. -/
theorem digits_plain {p q : Nat} (h : (hexDigits raw p).length = 4) (hlo : p ≤ q)
    (hhi : q < p + 4) :
    p + 4 ≤ raw.length ∧ raw[q]? ≠ some backslash := by
  have hle := length_filterMap_le hexVal ((raw.drop p).take 4)
  have hlen : ((raw.drop p).take 4).length = 4 := by
    have : ((raw.drop p).take 4).length ≤ 4 := length_take_le _ _
    unfold hexDigits at h
    omega
  have hall := filterMap_length_eq_length.mp (h.trans hlen.symm)
  constructor
  · rw [length_take, length_drop] at hlen
    omega
  · intro hq
    have hmem : backslash ∈ (raw.drop p).take 4 := by
      apply mem_of_getElem? (i := q - p)
      rw [getElem?_take_of_lt (by omega), getElem?_drop, Nat.add_sub_cancel' hlo, hq]
    exact absurd (hall _ hmem) (by decide)

/-- The loop stands at an offset: no run of backslashes and no escape reaches over it. -/
structure Head (raw : List UInt8) (i : Nat) : Prop where
  fresh : raw[i]? = some backslash → backslashesBefore raw i = 0
  outside : ∀ k, k < i → Eligible raw k → digitsAt raw k + 4 ≤ i

/-- What the loop has to leave from an offset on. -/
structure Done (raw : List UInt8) (i : Nat) (t : Translation) : Prop where
  cells : t.cells = (range' i (raw.length - i)).flatMap (piece raw)
  errs : t.errs = []
  plain : t.escaped = false → t.cells = rawRun raw i raw.length

theorem rawRun_append {i j l : Nat} (hij : i ≤ j) (hj : j ≤ l) :
    rawRun raw i j ++ rawRun raw j l = rawRun raw i l := by
  unfold rawRun
  rw [← map_append, show l - i = (j - i) + (l - j) by omega, ← range'_append_1,
    Nat.add_sub_cancel' hij]

theorem pieces_append {i j l : Nat} (hij : i ≤ j) (hj : j ≤ l) :
    (range' i (j - i)).flatMap (piece raw) ++ (range' j (l - j)).flatMap (piece raw) =
      (range' i (l - i)).flatMap (piece raw) := by
  rw [← flatMap_append, show l - i = (j - i) + (l - j) by omega, ← range'_append_1,
    Nat.add_sub_cancel' hij]

theorem Done.emit {i j : Nat} {cells : List Cell} {e : Bool} {t : Translation} (h : Done raw j t)
    (hij : i ≤ j) (hj : j ≤ raw.length)
    (hCells : cells = (range' i (j - i)).flatMap (piece raw))
    (hRaw : e = false → cells = rawRun raw i j) : Done raw i (Translation.emit cells [] e t) where
  cells := by
    rw [Translation.emit, h.cells, hCells, pieces_append hij hj]
  errs := h.errs
  plain he := by
    obtain ⟨he, ht⟩ := Bool.or_eq_false_iff.mp he
    rw [Translation.emit, hRaw he, h.plain ht, rawRun_append hij hj]

theorem pieces_raw {i j : Nat} (h : ∀ q, i ≤ q → q < j → ¬ Eligible raw q ∧ ¬ Inside raw q) :
    (range' i (j - i)).flatMap (piece raw) = rawRun raw i j := by
  rw [rawRun, map_eq_flatMap]
  refine flatMap_congr fun q hq => ?_
  obtain ⟨hlo, hhi⟩ := mem_range'_1.mp hq
  obtain ⟨hNot, hOut⟩ := h q hlo (by omega)
  rw [piece, if_neg hNot, if_neg hOut]

/-- A run of backslashes: only its last one can be eligible, and no escape reaches into it. -/
theorem Head.run {i j q : Nat} (h : Head raw i)
    (hrun : ∀ q, i ≤ q → q < j → raw[q]? = some backslash) (hlo : i ≤ q) (hhi : q < j) :
    (q + 1 < j → ¬ Eligible raw q) ∧ ¬ Inside raw q := by
  have hnot : ∀ k, i ≤ k → k + 1 < j → ¬ Eligible raw k := by
    intro k hk hlt hel
    have hu := hel.2.2
    rw [hrun (k + 1) (by omega) hlt] at hu
    exact absurd hu (by decide)
  refine ⟨hnot q hlo, ?_⟩
  rintro ⟨k, hlt, hel, hin⟩
  by_cases hk : k < i
  · have := h.outside k hk hel
    omega
  · exact hnot k (by omega) (by omega) hel

theorem Head.next {i j : Nat} (h : Head raw i) (hfresh : raw[j]? ≠ some backslash)
    (hplain : ∀ k, i ≤ k → k < j → ¬ Eligible raw k) (hij : i ≤ j) : Head raw j where
  fresh hb := absurd hb hfresh
  outside k hk hel := by
    by_cases hlt : k < i
    · exact (h.outside k hlt hel).trans hij
    · exact absurd hel (hplain k (by omega) hk)

theorem Head.escape {i k : Nat} (h : Head raw i) (hik : i < k)
    (hrun : ∀ q, i ≤ q → q < k → raw[q]? = some backslash) (hel : Eligible raw (k - 1))
    (hdig : (hexDigits raw (digitsAt raw (k - 1))).length = 4) :
    Head raw (digitsAt raw (k - 1) + 4) ∧
      (range' i (digitsAt raw (k - 1) + 4 - i)).flatMap (piece raw) = rawRun raw i (k - 1) ++
        (encodeUtf8 (hexValue (hexDigits raw (digitsAt raw (k - 1))))).map (⟨·, k - 1⟩) := by
  have hkp : k ≤ digitsAt raw (k - 1) := by
    rw [digitsAt, Nat.sub_add_cancel (by omega)]
    exact le_skip letterU k
  have htail : ∀ q, k ≤ q → q < digitsAt raw (k - 1) + 4 → raw[q]? ≠ some backslash := by
    intro q hlo hhi hq
    by_cases hlt : q < digitsAt raw (k - 1)
    · rw [digitsAt, Nat.sub_add_cancel (by omega)] at hlt
      rw [getElem?_of_lt_skip hlo hlt] at hq
      exact absurd hq (by decide)
    · exact (digits_plain hdig (Nat.le_of_not_lt hlt) hhi).2 hq
  constructor
  · refine ⟨fun _ => if_neg (htail _ (by omega) (by omega)), fun q hq hq' => ?_⟩
    by_cases hlt : q < i
    · exact (h.outside q hlt hq').trans (by omega)
    by_cases hqk : q + 1 < k
    · exact absurd hq' ((h.run hrun (by omega) (by omega)).1 hqk)
    · by_cases hkq : k ≤ q
      · exact absurd hq'.1 (htail q hkq hq)
      · obtain rfl : q = k - 1 := by omega
        exact le_rfl
  · rw [← pieces_append (j := k - 1) (by omega) (by omega),
      show digitsAt raw (k - 1) + 4 - (k - 1) = digitsAt raw (k - 1) + 4 - k + 1 by omega,
      range'_succ, flatMap_cons, Nat.sub_add_cancel (by omega)]
    have hnil : (range' k (digitsAt raw (k - 1) + 4 - k)).flatMap (piece raw) = [] := by
      rw [flatMap_eq_nil_iff]
      intro q hq
      obtain ⟨hlo, hhi⟩ := mem_range'_1.mp hq
      have hNot : ¬ Eligible raw q := fun hq' => htail q hlo (by omega) hq'.1
      rw [piece, if_neg hNot, if_pos ⟨k - 1, by omega, hel, by omega⟩]
    rw [hnil, append_nil, piece, if_pos hel, utf8Form_eq, pieces_raw]
    intro q hlo hhi
    exact ⟨(h.run hrun hlo (by omega)).1 (by omega), (h.run hrun hlo (by omega)).2⟩

/-- The loop leaves the pieces of the source, one offset after the other. -/
theorem loop_done (hWell : WellFormed raw) (fuel : Nat) {i : Nat} (hi : i ≤ raw.length)
    (hFuel : raw.length - i ≤ fuel) (h : Head raw i) : Done raw i (loop raw fuel i) := by
  have hdone : Done raw raw.length {} := by
    refine ⟨?_, rfl, fun _ => ?_⟩ <;> simp [rawRun]
  induction fuel generalizing i with
  | zero =>
    obtain rfl : i = raw.length := by omega
    exact hdone
  | succ fuel ih =>
    unfold loop
    by_cases hend : raw.length ≤ i
    · obtain rfl : i = raw.length := by omega
      rw [if_pos le_rfl]
      exact hdone
    rw [if_neg hend]
    by_cases hb : raw[i]? = some backslash
    · rw [if_neg (not_not_intro hb)]
      dsimp only
      generalize hj : skip raw backslash i = j
      have hij : i < j := by
        refine Nat.lt_of_le_of_ne (hj ▸ le_skip backslash i) ?_
        rintro rfl
        exact getElem?_skip_ne backslash i (hj ▸ hb)
      have hjl : j ≤ raw.length := hj ▸ skip_le_length backslash hi
      have hrun : ∀ q, i ≤ q → q < j → raw[q]? = some backslash := fun q hlo hhi =>
        getElem?_of_lt_skip hlo (hj ▸ hhi)
      have hstop : raw[j]? ≠ some backslash := hj ▸ getElem?_skip_ne backslash i
      have hcount : backslashesBefore raw (j - 1) = j - 1 - i := by
        have := backslashesBefore_run (m := j - 1 - i) (h.fresh hb) fun q hlo hhi =>
          hrun q hlo (by omega)
        rwa [show i + (j - 1 - i) = j - 1 by omega] at this
      have hlast : raw[j - 1 + 1]? = raw[j]? := by rw [Nat.sub_add_cancel (by omega)]
      by_cases hEsc : raw[j]? = some letterU ∧ (j - i) % 2 = 1
      · have hel : Eligible raw (j - 1) :=
          ⟨hrun _ (by omega) (by omega), by omega, hlast.trans hEsc.1⟩
        have hp : digitsAt raw (j - 1) = skip raw letterU j := by
          rw [digitsAt, Nat.sub_add_cancel (by omega)]
        have hdig := hWell _ hel
        rw [if_pos (by simpa using hEsc), ← hp, if_pos hdig]
        obtain ⟨hnext, hpieces⟩ := h.escape hij hrun hel hdig
        have hjp : j ≤ digitsAt raw (j - 1) := hp ▸ le_skip letterU j
        have hend := (digits_plain hdig le_rfl (by omega)).1
        exact (ih hend (by omega) hnext).emit (by omega) hend hpieces.symm nofun
      · rw [if_neg (by simpa using hEsc)]
        have hplain : ∀ k, i ≤ k → k < j → ¬ Eligible raw k := by
          intro k hlo hhi hel
          by_cases hk : k + 1 < j
          · exact (h.run hrun hlo hhi).1 hk hel
          · obtain rfl : k = j - 1 := by omega
            have hEven := hel.2.1
            exact hEsc ⟨hlast.symm.trans hel.2.2, by omega⟩
        have hpieces : (range' i (j - i)).flatMap (piece raw) = _ := pieces_raw fun q hlo hhi =>
          ⟨hplain q hlo hhi, (h.run hrun hlo hhi).2⟩
        exact (ih hjl (by omega) (h.next hstop hplain hij.le)).emit hij.le hjl hpieces.symm
          fun _ => rfl
    · -- a byte that is no backslash
      rw [if_pos hb]
      have hNot : ¬ Eligible raw i := fun hel => hb hel.1
      have hOut : ¬ Inside raw i := by
        rintro ⟨k, hlt, hel, hin⟩
        have := h.outside k hlt hel
        omega
      have hpieces : (range' i (i + 1 - i)).flatMap (piece raw) = _ :=
        pieces_raw fun q hlo hhi => by
        obtain rfl : q = i := by omega
        exact ⟨hNot, hOut⟩
      refine (ih (by omega) (by omega) ?_).emit (by omega) (by omega) hpieces.symm fun _ => rfl
      refine ⟨fun _ => if_neg hb, fun k hk hel => ?_⟩
      rcases Nat.lt_succ_iff_lt_or_eq.mp hk with hlt | rfl
      · exact (h.outside k hlt hel).trans (Nat.le_succ i)
      · exact absurd hel hNot

theorem raw_of_mem_piece {i : Nat} {c : Cell} (h : c ∈ piece raw i) : c.raw = i := by
  unfold piece at h
  split_ifs at h
  · obtain ⟨_, -, rfl⟩ := mem_map.mp h
    rfl
  · cases h
  · rw [mem_singleton.mp h]

theorem pairwise_translated (raw : List UInt8) :
    (translated raw).Pairwise fun c d => c.raw ≤ d.raw := by
  refine pairwise_flatMap.mpr ⟨fun i _ => ?_, ?_⟩
  · refine pairwise_of_forall_mem_list fun c hc d hd => ?_
    rw [raw_of_mem_piece hc, raw_of_mem_piece hd]
  · refine pairwise_lt_range.imp fun hlt c hc d hd => ?_
    rw [raw_of_mem_piece hc, raw_of_mem_piece hd]
    exact hlt.le

/-- The buffer is the source with its eligible escapes replaced, and the map leads every byte
back to where it comes from, in the order of the source. -/
theorem translate_exact (raw : List UInt8) (hWell : WellFormed raw) :
    (LexRunner.translate raw).text = (translated raw).map Cell.byte ∧
      (LexRunner.translate raw).errs = [] ∧
      (∀ tpos (h : tpos < (translated raw).length),
        (LexRunner.translate raw).rawAt tpos = ((translated raw)[tpos]).raw) ∧
      (translated raw).Pairwise fun c d => c.raw ≤ d.raw := by
  have hHead : Head raw 0 := ⟨fun _ => rfl, fun k hk => absurd hk (Nat.not_lt_zero k)⟩
  have hdone := loop_done hWell raw.length (Nat.zero_le _) le_rfl hHead
  have hcells : (loop raw raw.length 0).cells = translated raw := by
    rw [hdone.cells, translated, range_eq_range', Nat.sub_zero]
  unfold LexRunner.translate
  dsimp only
  split
  · refine ⟨by rw [hcells], hdone.errs, fun tpos h => ?_, pairwise_translated raw⟩
    rw [LexRunner.rawAt, hcells, if_neg]
    · rw [getD_eq_getElem?_getD, getElem?_map, getElem?_eq_getElem h]
      rfl
    · rw [map_eq_nil_iff]
      rintro hnil
      rw [hnil] at h
      cases h
  · -- without an escape every cell is the byte of its own offset
    rename_i hEsc
    have hplain := hcells.symm.trans (hdone.plain (by simpa using hEsc))
    refine ⟨?_, hdone.errs, fun tpos h => ?_, pairwise_translated raw⟩
    · rw [hplain]
      apply ext_getElem
      · simp [rawRun]
      · intro i h _
        simp [rawRun, h]
    · simp [LexRunner.rawAt, hplain, rawRun]

/-- Two backslashes and an escape with two `u`s. -/
theorem translate_exact_doubled :
    (LexRunner.translate [0x5C, 0x5C, 0x5C, 0x75, 0x75, 0x30, 0x30, 0x36, 0x31]).text =
      [0x5C, 0x5C, 0x61] :=
  (translate_exact _ (by decide)).1.trans (by decide)

end Escapes

end B2Compiler.Frontend
