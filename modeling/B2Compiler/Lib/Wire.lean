import Mathlib.Data.List.Basic
import Mathlib.Tactic.Ring

/-!
# Readers and writers of byte strings

A reader takes a value off the front of a byte string or fails.  `Exact put get fits`
says that `get` undoes `put` on the values that fit, and that whatever `get` accepts is
what `put` writes: a reader that is exact neither skips nor normalises a byte.  Words,
repetitions and counted tables of exact readers are exact.

A loop that reads a record and at once acts on it accepts the same input as reading
all records first and acting on them afterwards.
-/

namespace B2Compiler.Lib

open List

abbrev Byte := BitVec 8

/-- A reader: the value and the bytes left, or an error. -/
abbrev Reader (ε α : Type) := List Byte → Except ε (α × List Byte)

variable {ε α β σ : Type}

/-- A sequence of two fallible steps succeeds when both do. -/
theorem bind_eq_ok_iff {x : Except ε α} {f : α → Except ε β} {b : β} :
    (x >>= f) = .ok b ↔ ∃ a, x = .ok a ∧ f a = .ok b := by
  cases x <;> simp [bind, Except.bind]

theorem pure_eq_ok_iff {a b : α} : (pure a : Except ε α) = .ok b ↔ a = b := by
  constructor
  · intro h
    injection h
  · intro h
    rw [h]
    rfl

/-- A check in front of a step lets it run when nothing is wrong. -/
theorem guard_eq_ok_iff {c : Prop} [Decidable c] {err : ε} {x : Except ε α} {a : α} :
    (if c then .error err else x) = .ok a ↔ ¬ c ∧ x = .ok a := by
  split <;> simp [*]

theorem ok_bind (a : α) (f : α → Except ε β) : (Except.ok a >>= f) = f a := rfl

/-! ## Little-endian words -/

/-- The `k` low bytes of `v`, least significant first. -/
def leBytes : Nat → Nat → List Byte
  | 0, _ => []
  | k + 1, v => BitVec.ofNat 8 v :: leBytes k (v / 256)

/-- The number a little-endian byte string stands for. -/
def leValue : List Byte → Nat
  | [] => 0
  | b :: bs => b.toNat + 256 * leValue bs

@[simp] theorem length_leBytes (k v : Nat) : (leBytes k v).length = k := by
  induction k generalizing v with
  | zero => rfl
  | succ k ih => simp [leBytes, ih]

theorem leValue_leBytes {k v : Nat} (h : v < 256 ^ k) : leValue (leBytes k v) = v := by
  induction k generalizing v with
  | zero =>
    have hZero : v = 0 := by simpa using h
    simp [leBytes, leValue, hZero]
  | succ k ih =>
    have hDiv : v / 256 < 256 ^ k := by
      rw [Nat.pow_succ] at h
      exact Nat.div_lt_of_lt_mul (by rwa [Nat.mul_comm] at h)
    simp only [leBytes, leValue, ih hDiv, BitVec.toNat_ofNat]
    omega

theorem leValue_lt (bs : List Byte) : leValue bs < 256 ^ bs.length := by
  induction bs with
  | nil => simp [leValue]
  | cons b bs ih =>
    have hb : b.toNat < 256 := b.isLt
    rw [leValue, length_cons, Nat.pow_succ]
    omega

theorem leBytes_leValue (bs : List Byte) : leBytes bs.length (leValue bs) = bs := by
  induction bs with
  | nil => rfl
  | cons b bs ih =>
    have hb : b.toNat < 256 := b.isLt
    have hLow : BitVec.ofNat 8 (b.toNat + 256 * leValue bs) = b := by
      apply BitVec.eq_of_toNat_eq
      rw [BitVec.toNat_ofNat]
      omega
    have hHigh : (b.toNat + 256 * leValue bs) / 256 = leValue bs := by omega
    rw [length_cons, leBytes, leValue, hLow, hHigh, ih]

/-- Reads `k` bytes as a number. -/
def readLe (k : Nat) (err : ε) : Reader ε Nat := fun bs =>
  if k ≤ bs.length then .ok (leValue (bs.take k), bs.drop k) else .error err

def readWord (k w : Nat) (err : ε) : Reader ε (BitVec w) := fun bs => do
  let (v, bs) ← readLe k err bs
  return (BitVec.ofNat w v, bs)

/-- Writes a word as `k` bytes. -/
def putWord {w : Nat} (k : Nat) (v : BitVec w) : List Byte := leBytes k v.toNat

def Restores (put : α → List Byte) (get : Reader ε α) (fits : α → Prop) : Prop :=
  ∀ a rest, fits a → get (put a ++ rest) = .ok (a, rest)

/-- `get` undoes `put`, and accepts nothing else than what `put` writes. -/
structure Exact (put : α → List Byte) (get : Reader ε α) (fits : α → Prop) : Prop where
  get_put : ∀ a rest, fits a → get (put a ++ rest) = .ok (a, rest)
  put_get : ∀ bs a rest, get bs = .ok (a, rest) → bs = put a ++ rest ∧ fits a

/-- A read in front of a step takes what its writer puts. -/
theorem Exact.bind_ok_iff {put : α → List Byte} {get : Reader ε α} {fits : α → Prop}
    (h : Exact put get fits) {k : α × List Byte → Except ε β} {bs : List Byte} {b : β} :
    (get bs >>= k) = .ok b ↔
      ∃ a, fits a ∧ ∃ rest, bs = put a ++ rest ∧ k (a, rest) = .ok b := by
  rw [bind_eq_ok_iff]
  constructor
  · rintro ⟨⟨a, rest⟩, hGet, hk⟩
    obtain ⟨hBs, hFits⟩ := h.put_get bs a rest hGet
    exact ⟨a, hFits, rest, hBs, hk⟩
  · rintro ⟨a, hFits, rest, rfl, hk⟩
    exact ⟨(a, rest), h.get_put a rest hFits, hk⟩

theorem exact_readLe (k : Nat) (err : ε) :
    Exact (leBytes k) (readLe k err) (fun v => v < 256 ^ k) := by
  constructor
  · intro v rest hv
    have hLe : k ≤ (leBytes k v ++ rest).length := by simp
    have hTake : (leBytes k v ++ rest).take k = leBytes k v :=
      take_left' (length_leBytes k v)
    have hDrop : (leBytes k v ++ rest).drop k = rest := drop_left' (length_leBytes k v)
    rw [readLe, if_pos hLe, hTake, hDrop, leValue_leBytes hv]
  · intro bs v rest h
    unfold readLe at h
    split at h
    · rename_i hLe
      injection h with h
      injection h with hv hr
      have hLen : (bs.take k).length = k := length_take_of_le hLe
      have hBytes := leBytes_leValue (bs.take k)
      have hLt := leValue_lt (bs.take k)
      rw [hLen, hv] at hBytes hLt
      exact ⟨by rw [hBytes, ← hr, take_append_drop], hLt⟩
    · cases h

theorem exact_readWord {k w : Nat} (hw : w = 8 * k) (err : ε) :
    Exact (putWord (w := w) k) (readWord k w err) (fun _ => True) := by
  have hPow : 256 ^ k = 2 ^ w := by
    rw [hw, Nat.pow_mul]
  constructor
  · intro v rest _
    have hv : v.toNat < 256 ^ k := by
      rw [hPow]
      exact v.isLt
    simp only [readWord, putWord, (exact_readLe k err).get_put v.toNat rest hv]
    simp [Bind.bind, Except.bind, Pure.pure, Except.pure]
  · intro bs v rest h
    simp only [readWord, (exact_readLe k err).bind_ok_iff, pure_eq_ok_iff] at h
    obtain ⟨n, hLt, _, rfl, h⟩ := h
    injection h with hv hr
    subst hv hr
    rw [hPow] at hLt
    exact ⟨by rw [putWord, BitVec.toNat_ofNat, Nat.mod_eq_of_lt hLt], trivial⟩

/-! ## Repetition -/

/-- Reads `n` values in a row. -/
def readMany (get : Reader ε α) : Nat → Reader ε (List α)
  | 0 => fun bs => .ok ([], bs)
  | n + 1 => fun bs => do
      let (a, bs) ← get bs
      let (as, bs) ← readMany get n bs
      return (a :: as, bs)

theorem readMany_succ_eq_ok_iff {get : Reader ε α} {n : Nat} {bs rest : List Byte}
    {as : List α} : readMany get (n + 1) bs = .ok (as, rest) ↔ ∃ a as' bs',
      get bs = .ok (a, bs') ∧ readMany get n bs' = .ok (as', rest) ∧ as = a :: as' := by
  simp only [readMany, bind_eq_ok_iff, Prod.exists, pure_eq_ok_iff, Prod.mk.injEq]
  constructor
  · rintro ⟨a, bs', hGet, as', _, hMany, rfl, rfl⟩
    exact ⟨a, as', bs', hGet, hMany, rfl⟩
  · rintro ⟨a, as', bs', hGet, hMany, rfl⟩
    exact ⟨a, bs', hGet, as', rest, hMany, rfl, rfl⟩

theorem Restores.many {put : α → List Byte} {get : Reader ε α} {fits : α → Prop}
    (h : Restores put get fits) (n : Nat) :
    Restores (fun as : List α => as.flatMap put) (readMany get n)
      (fun as => as.length = n ∧ ∀ a ∈ as, fits a) := by
  induction n with
  | zero =>
    rintro as rest ⟨hLen, -⟩
    rw [length_eq_zero_iff] at hLen
    subst hLen
    rfl
  | succ n ih =>
    rintro as rest ⟨hLen, hFits⟩
    cases as with
    | nil => cases hLen
    | cons a as =>
      have hLen' : as.length = n := by simpa using hLen
      have hHead := h a (as.flatMap put ++ rest) (hFits a mem_cons_self)
      have hTail := ih as rest ⟨hLen', fun b hb => hFits b (mem_cons_of_mem _ hb)⟩
      simp only [flatMap_cons, append_assoc, readMany, hHead]
      simp only [Bind.bind, Except.bind, hTail]
      rfl

theorem Exact.many {put : α → List Byte} {get : Reader ε α} {fits : α → Prop}
    (h : Exact put get fits) (n : Nat) :
    Exact (fun as : List α => as.flatMap put) (readMany get n)
      (fun as => as.length = n ∧ ∀ a ∈ as, fits a) := by
  refine ⟨Restores.many h.get_put n, ?_⟩
  induction n with
  | zero =>
    intro bs as rest hRead
    injection hRead with hRead
    injection hRead with hAs hRest
    subst hAs hRest
    exact ⟨rfl, rfl, by simp⟩
  | succ n ih =>
    intro bs as rest hRead
    obtain ⟨a, as', bs', hHead, hTail, rfl⟩ := readMany_succ_eq_ok_iff.mp hRead
    obtain ⟨rfl, hFitsHead⟩ := h.put_get bs a bs' hHead
    obtain ⟨rfl, rfl, hFitsTail⟩ := ih bs' as' rest hTail
    exact ⟨by rw [flatMap_cons, append_assoc], rfl, forall_mem_cons.mpr ⟨hFitsHead, hFitsTail⟩⟩

theorem length_of_readMany {get : Reader ε α} {n : Nat} {bs rest : List Byte}
    {as : List α} (h : readMany get n bs = .ok (as, rest)) : as.length = n := by
  induction n generalizing bs as rest with
  | zero =>
    injection h with h
    injection h with hAs _
    rw [← hAs]
    rfl
  | succ n ih =>
    obtain ⟨a, as', bs₁, -, hTail, rfl⟩ := readMany_succ_eq_ok_iff.mp h
    rw [length_cons, ih hTail]

theorem forall_of_readMany {get : Reader ε α} {P : α → Prop}
    (h : ∀ bs a rest, get bs = .ok (a, rest) → P a) {n : Nat} {bs rest : List Byte}
    {as : List α} (hRead : readMany get n bs = .ok (as, rest)) : ∀ a ∈ as, P a := by
  induction n generalizing bs as rest with
  | zero =>
    injection hRead with hRead
    injection hRead with hAs _
    rw [← hAs]
    nofun
  | succ n ih =>
    obtain ⟨a, as', bs₁, hHead, hTail, rfl⟩ := readMany_succ_eq_ok_iff.mp hRead
    exact forall_mem_cons.mpr ⟨h bs a bs₁ hHead, ih hTail⟩

/-- A count of four bytes and that many records. -/
def putTable (put : α → List Byte) (as : List α) : List Byte :=
  leBytes 4 as.length ++ as.flatMap put

def readTable (err : ε) (get : Reader ε α) : Reader ε (List α) := fun bs => do
  let (n, bs) ← readLe 4 err bs
  readMany get n bs

theorem Exact.table {put : α → List Byte} {get : Reader ε α} {fits : α → Prop}
    (h : Exact put get fits) (err : ε) :
    Exact (putTable put) (readTable err get)
      (fun as => as.length < 256 ^ 4 ∧ ∀ a ∈ as, fits a) := by
  constructor
  · rintro as rest ⟨hLen, hFits⟩
    have hCount := (exact_readLe 4 err).get_put as.length (as.flatMap put ++ rest) hLen
    have hMany := (h.many as.length).get_put as rest ⟨rfl, hFits⟩
    rw [putTable, append_assoc, readTable, hCount, ok_bind]
    exact hMany
  · intro bs as rest hRead
    obtain ⟨n, hn, bs', rfl, hMany⟩ := (exact_readLe 4 err).bind_ok_iff.mp hRead
    obtain ⟨rfl, rfl, hFits⟩ := (h.many n).put_get bs' as rest hMany
    exact ⟨by rw [putTable, append_assoc], hn, hFits⟩

def readLoop (get : Reader ε α) (act : Nat → α → σ → Except ε σ) :
    Nat → Nat → List Byte → σ → Except ε (σ × List Byte)
  | 0, _, bs, s => .ok (s, bs)
  | n + 1, i, bs, s => do
      let (a, bs) ← get bs
      let s ← act i a s
      readLoop get act n (i + 1) bs s

/-- Acts on a list of records, counting from `i`. -/
def actAll (act : Nat → α → σ → Except ε σ) : Nat → List α → σ → Except ε σ
  | _, [], s => .ok s
  | i, a :: as, s => do
      let s ← act i a s
      actAll act (i + 1) as s

/-- Acting at once or after the last record is the same on accepted input. -/
theorem readLoop_eq_ok_iff (get : Reader ε α) (act : Nat → α → σ → Except ε σ) (n i : Nat)
    (bs : List Byte) (s : σ) (s' : σ) (bs' : List Byte) :
    readLoop get act n i bs s = .ok (s', bs') ↔
      ∃ as, readMany get n bs = .ok (as, bs') ∧ actAll act i as s = .ok s' := by
  induction n generalizing i bs s with
  | zero =>
    constructor
    · intro h
      injection h with h
      injection h with hs hb
      exact ⟨[], by rw [readMany, hb], by rw [actAll, hs]⟩
    · rintro ⟨as, hRead, hAct⟩
      injection hRead with hRead
      injection hRead with hAs hb
      subst hAs hb
      injection hAct with hAct
      rw [readLoop, hAct]
  | succ n ih =>
    constructor
    · intro h
      obtain ⟨⟨a, bs₁⟩, hGet, h⟩ := bind_eq_ok_iff.mp h
      obtain ⟨s₁, hAct, h⟩ := bind_eq_ok_iff.mp h
      obtain ⟨as, hRead, hRest⟩ := (ih (i + 1) bs₁ s₁).mp h
      exact ⟨a :: as, readMany_succ_eq_ok_iff.mpr ⟨a, as, bs₁, hGet, hRead, rfl⟩,
        bind_eq_ok_iff.mpr ⟨s₁, hAct, hRest⟩⟩
    · rintro ⟨as, hRead, hAct⟩
      obtain ⟨a, as', bs₁, hGet, hTail, rfl⟩ := readMany_succ_eq_ok_iff.mp hRead
      obtain ⟨s₁, hActHead, hActTail⟩ := bind_eq_ok_iff.mp hAct
      exact bind_eq_ok_iff.mpr ⟨(a, bs₁), hGet, bind_eq_ok_iff.mpr
        ⟨s₁, hActHead, (ih (i + 1) bs₁ s₁).mpr ⟨as', hTail, hActTail⟩⟩⟩

end B2Compiler.Lib
