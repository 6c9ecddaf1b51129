import B2Compiler.Ts.ArrayStorage

/-!
# Arrays against their language definition

The language describes an array by its own elements and its length; reads and stores
that find no own element ask the prototype chain.  `storage_refines` runs the storage
beside that description.  They part where a store grows the dense vector over a key
that `shift` has moved below the dense limit, where `push` or `unshift` passes the
largest length, and where a builtin meets a hole behind which something is inherited.
-/

namespace B2Compiler.Ts

open Function Nat ArrayObject

/-! ## The definition -/

/-- What the prototype chain has at an index key: the value a read gets, and whether a
store is intercepted, by a setter or a read-only property. -/
structure Inherited (V : Type) where
  value : V
  intercepts : Bool

/-- The index keys of the prototype chain. -/
abbrev Chain (V : Type) : Type := Nat → Option (Inherited V)

def Chain.intercepts {V : Type} (c : Chain V) (i : Nat) : Bool := (c i).any Inherited.intercepts

/-- An array as the language describes it. -/
structure EsArray (V : Type) where
  own : Nat → Option V := fun _ => none
  length : Nat := 0

/-- A number that is its own `ToUint32`: the integers below `2 ^ 32`. -/
def exactLength : JsNumber → Option Nat
  | .finite q => if q.den = 1 ∧ 0 ≤ q.num ∧ q.num < 2 ^ 32 then some q.num.toNat else none
  | _ => none

namespace EsArray

variable {V : Type} (c : Chain V) (a : EsArray V)

def get (i : Nat) : Option V := (a.own i).or ((c i).map Inherited.value)

/-- The own element after `v` was stored at `i`: none when the store is intercepted. -/
def place (i : Nat) (v : V) : Option V :=
  if a.own i = none ∧ c.intercepts i then none else some v

/-- One operation; `none` when it ends in a RangeError after elements were moved, which
the state then shows. -/
def step (c : Chain V) (a : EsArray V) : ArrayOp V → Option (OpResult V × EsArray V)
  | .store idx v =>
    some (.done,
      if a.own idx = none ∧ c.intercepts idx then a
      else
        { own := update a.own idx (some v), length := max a.length (idx + 1) })
  | .delete idx => some (.done, { a with own := update a.own idx none })
  | .setLength lenNum =>
    match exactLength lenNum with
    | none => some (.rangeError, a)
    | some n => some (.done, { own := fun i => if i < n then a.own i else none, length := n })
  | .push args =>
    let len := a.length + args.length
    if len < 2 ^ 32 then
      some (.length len,
        { own := fun i =>
            if i < a.length then a.own i else (args[i - a.length]?).bind (a.place c i)
          length := len })
    else none
  | .pop =>
    if a.length = 0 then some (.value none, a)
    else
      some (.value (a.get c (a.length - 1)),
        { own := update a.own (a.length - 1) none, length := a.length - 1 })
  | .shift =>
    if a.length = 0 then some (.value none, a)
    else
      some (.value (a.get c 0),
        { own := fun i => if i + 1 < a.length then (a.get c (i + 1)).bind (a.place c i) else none
          length := a.length - 1 })
  | .unshift args =>
    let len := a.length + args.length
    if args = [] then some (.length len, a)
    else if len < 2 ^ 32 then
      some (.length len,
        { own := fun i =>
            if i < args.length then (args[i]?).bind (a.place c i)
            else if i < len then (a.get c (i - args.length)).bind (a.place c i)
            else none
          length := len })
    else none

theorem get_eq_own {c : Chain V} {a : EsArray V} {i : Nat} (h : a.own i = none → c i = none) :
    a.get c i = a.own i := by
  unfold get
  cases hown : a.own i with
  | some v => rfl
  | none =>
    rw [h hown]
    rfl

theorem bind_place {c : Chain V} {a : EsArray V} {i : Nat}
    (h : a.own i = none → c.intercepts i = false) (v : Option V) :
    v.bind (a.place c i) = v := by
  cases v with
  | none => rfl
  | some v =>
    have hplace : ¬ (a.own i = none ∧ c.intercepts i = true) := by
      rintro ⟨hnone, hint⟩
      rw [h hnone] at hint
      cases hint
    simp only [Option.bind_some, place, hplace, if_false]

/-- A sequence of operations, each with the prototype chain it meets. -/
def run (a : EsArray V) : List (Chain V × ArrayOp V) → Option (List (OpResult V) × EsArray V)
  | [] => some ([], a)
  | (c, op) :: ops => do
      let (r, a) ← a.step c op
      let (rs, a) ← a.run ops
      return (r :: rs, a)

end EsArray

/-! ## The storage beside it -/

namespace ArrayObject

variable {V : Type} [ElementValue V]

def run (arr : ArrayObject V) : List (Chain V × ArrayOp V) → List (OpResult V) × ArrayObject V
  | [] => ([], arr)
  | (_, op) :: ops =>
    let (r, arr) := arr.step op
    let (rs, arr) := arr.run ops
    (r :: rs, arr)

/-- The storage represents an array: reads, listing and length agree with it, every own
index is below a 32-bit length, no key is in both storages, and the kind is sound. -/
structure Represents (arr : ArrayObject V) (a : EsArray V) : Prop where
  reads : ∀ i, arr.ownElementValue i = a.own i
  keys : arr.ownIndexKeys = (List.range a.length).filter fun i => (a.own i).isSome
  length : arr.length = a.length
  length_lt : a.length < 2 ^ 32
  below : ∀ i, (a.own i).isSome → i < a.length
  apart : ∀ i, i < arr.elements.length → Lib.OrderedMap.find arr.sparse i = none
  kinds : ∀ v, arr.Holds v → arr.elementsKind.admits v = true
  packed : arr.elementsKind.isPacked = true → none ∉ arr.elements

theorem represents_of_wf {arr : ArrayObject V} {a : EsArray V} (hw : arr.Wf)
    (hreads : ∀ i, arr.ownElementValue i = a.own i) (hlen : arr.length = a.length) :
    arr.Represents a where
  reads := hreads
  keys := by
    rw [hw.ownIndexKeys_eq, hlen]
    simp only [hreads]
  length := hlen
  length_lt := hlen ▸ hw.length_lt
  below i hi := by
    rw [← hreads] at hi
    exact hlen ▸ hw.below i hi
  apart i hi := by
    refine Lib.OrderedMap.find_eq_none_iff.mpr fun e he heq => ?_
    have := hw.apart e he
    omega
  kinds := hw.kinds
  packed := hw.packed

/-- A store at `idx` hides no sparse entry. -/
def StoreFits (arr : ArrayObject V) (idx : Nat) : Prop :=
  idx < arr.elements.length ∨ kMaxDenseElements ≤ idx ∨ ∀ e ∈ arr.sparse, idx < e.1

/-- What an operation asks of the state before it and of the prototype chain. -/
def Admissible (c : Chain V) (arr : ArrayObject V) : ArrayOp V → Prop
  | .store idx _ => arr.StoreFits idx ∧ (arr.ownElementValue idx = none → c.intercepts idx = false)
  | .delete _ => True
  | .setLength _ => True
  | .push args =>
    args ≠ [] → arr.length + args.length < 2 ^ 32 ∧
      (arr.length < kMaxDenseElements → arr.sparse = []) ∧
      ∀ i, arr.length ≤ i → i < arr.length + args.length → c.intercepts i = false
  | .pop => arr.length ≠ 0 → arr.ownElementValue (arr.length - 1) = none → c (arr.length - 1) = none
  | .shift => ∀ i < arr.length, arr.ownElementValue i = none → c i = none
  | .unshift args =>
    args ≠ [] → arr.length + args.length < 2 ^ 32 ∧
      (∀ i < arr.length, arr.ownElementValue i = none → c i = none) ∧
      ∀ i, arr.length ≤ i → i < arr.length + args.length →
        (i < args.length ∨ arr.ownElementValue (i - args.length) ≠ none) →
        c.intercepts i = false

/-- Every operation of the sequence is admissible where it is executed. -/
def AllAdmissible (arr : ArrayObject V) : List (Chain V × ArrayOp V) → Prop
  | [] => True
  | (c, op) :: ops => arr.Admissible c op ∧ (arr.step op).2.AllAdmissible ops

/-! ### Single operations -/

section Steps

variable {arr : ArrayObject V}

variable {idx : Nat}

theorem length_setArrayElement (v : V) :
    (arr.setArrayElement idx v).length = bump arr.length idx := by
  unfold setArrayElement
  split
  · rfl
  · split <;> rfl

theorem bump_eq_max {length : Nat} (hidx : idx < 2 ^ 32 - 1) :
    bump length idx = max length (idx + 1) := by
  unfold bump
  split
  · rw [mod_eq_of_lt (by omega)]
    omega
  · omega

theorem finite_toUint32_iff (d : JsNumber) (n : Nat) :
    (JsNumber.finite (toUint32 d) = d ∧ toUint32 d = n) ↔ exactLength d = some n := by
  cases d with
  | nan | infinity b => simp [exactLength]
  | finite q =>
    simp only [JsNumber.finite.injEq, exactLength, Option.ite_none_right_eq_some, Option.some.injEq]
    constructor
    · rintro ⟨hq, hn⟩
      have hnum : (toUint32 (.finite q) : Int) = q.num := by
        have := congrArg Rat.num hq
        rwa [Rat.num_natCast] at this
      have hden : 1 = q.den := by
        have := congrArg Rat.den hq
        rwa [Rat.den_natCast] at this
      have hlt : toUint32 (.finite q) < 2 ^ 32 := by
        simp only [toUint32]
        omega
      refine ⟨⟨hden.symm, ?_, ?_⟩, ?_⟩
      all_goals omega
    · rintro ⟨⟨hden, hnonneg, hlt⟩, hn⟩
      have hto : toUint32 (.finite q) = q.num.toNat := by
        simp only [toUint32, hden, cast_one, Int.tdiv_one]
        omega
      rw [hto]
      refine ⟨?_, hn⟩
      refine Rat.ext ?_ ?_
      · show ((q.num.toNat : Int)) = q.num
        omega
      · exact hden.symm

theorem sparse_setArrayElement (v : V) (h : idx < kMaxDenseElements) :
    (arr.setArrayElement idx v).sparse = arr.sparse := by
  unfold setArrayElement
  split
  · rfl
  · rfl

/-- The storage and the array agree, and the storage is well formed. -/
structure Agrees (arr : ArrayObject V) (a : EsArray V) : Prop where
  wf : arr.Wf
  reads : ∀ i, arr.ownElementValue i = a.own i
  length : arr.length = a.length

variable {a : EsArray V}

theorem Agrees.own_none (h : arr.Agrees a) {i : Nat} (hi : a.length ≤ i) : a.own i = none := by
  cases hown : a.own i with
  | none => rfl
  | some v =>
    have hlt := h.wf.below i (by rw [h.reads, hown]; rfl)
    rw [h.length] at hlt
    omega

theorem Agrees.store (h : arr.Agrees a) (hidx : idx < 2 ^ 32 - 1) (v : V)
    (hfits : arr.StoreFits idx) : (arr.setArrayElement idx v).Agrees
      { own := update a.own idx (some v), length := max a.length (idx + 1) } where
  wf := h.wf.setArrayElement hidx v hfits
  reads i := by
    rw [ownElementValue_setArrayElement v hfits, h.reads]
    exact (update_apply ..).symm
  length := by rw [length_setArrayElement, bump_eq_max hidx, h.length]

/-- Pushing one value after another appends them all, when no sparse entry can be in the
way. -/
theorem Agrees.push (args : List V) (h : arr.Agrees a) (hroom : arr.length + args.length < 2 ^ 32)
    (hsparse : args ≠ [] → arr.length < kMaxDenseElements → arr.sparse = []) :
    (arr.push args).Agrees
      { own := fun i => if i < a.length then a.own i else args[i - a.length]?
        length := a.length + args.length } := by
  induction args generalizing arr a with
  | nil =>
    refine ⟨h.wf, fun i => ?_, h.length⟩
    show arr.ownElementValue i = if i < a.length then a.own i else none
    rw [h.reads]
    split
    · rfl
    · exact h.own_none (by omega)
  | cons v args ih =>
    have hfits : arr.StoreFits arr.length := by
      by_cases hmax : arr.length < kMaxDenseElements
      · refine Or.inr (Or.inr ?_)
        rw [hsparse (by simp) hmax]
        intro e he
        cases he
      · exact Or.inr (Or.inl (not_lt.mp hmax))
    rw [List.length_cons] at hroom
    have hidx : arr.length < 2 ^ 32 - 1 := by omega
    have hone := h.store hidx v hfits
    have hlen : (arr.setArrayElement arr.length v).length = arr.length + 1 := by
      rw [length_setArrayElement, bump_eq_max hidx]
      omega
    have hrest := ih hone (by omega) (by
      intro _ hlt
      rw [hlen] at hlt
      rw [sparse_setArrayElement v (by omega)]
      exact hsparse (by simp) (by omega))
    refine ⟨hrest.wf, fun i => ?_, ?_⟩
    · show ((arr.setArrayElement arr.length v).push args).ownElementValue i = _
      rw [hrest.reads]
      simp only [h.length, List.length_cons, update_apply]
      grind
    · show ((arr.setArrayElement arr.length v).push args).length = _
      rw [hrest.length]
      simp only [List.length_cons, h.length]
      omega

theorem Agrees.setLength (h : arr.Agrees a) {d : JsNumber} {n : Nat}
    (hd : exactLength d = some n) : ∃ arr', arr.arraySetLength d = some arr' ∧
      arr'.Agrees { own := fun i => if i < n then a.own i else none, length := n } := by
  obtain ⟨hfin, hto⟩ := (finite_toUint32_iff d n).mpr hd
  have hn : n < 2 ^ 32 := by
    rw [← hto]
    cases d with
    | nan | infinity _ => exact Nat.two_pow_pos 32
    | finite q =>
      simp only [toUint32]
      omega
  rw [hto] at hfin
  by_cases hle : arr.length ≤ n
  · refine ⟨{ arr with length := n }, ?_, ?_, fun i => ?_, rfl⟩
    · simp only [arraySetLength, hto, hfin, ne_eq, not_true_eq_false, if_false, hle, if_true]
    · refine ⟨hn, h.wf.sorted, h.wf.apart, fun i hi => ?_, h.wf.kinds, h.wf.packed⟩
      exact lt_of_lt_of_le (h.wf.below i hi) hle
    show arr.ownElementValue i = if i < n then a.own i else none
    rw [h.reads]
    split
    · rfl
    · rw [h.length] at hle
      exact h.own_none (by omega)
  · refine ⟨arr.shrink n, ?_, h.wf.shrink hn, fun i => ?_, rfl⟩
    · simp only [arraySetLength, hto, hfin, ne_eq, not_true_eq_false, if_false, hle]
    · rw [ownElementValue_shrink, h.reads]

theorem arraySetLength_eq_none {d : JsNumber} (hd : exactLength d = none) :
    arr.arraySetLength d = none := by
  have hne : JsNumber.finite (toUint32 d) ≠ d := by
    intro heq
    have := (finite_toUint32_iff d _).mp ⟨heq, rfl⟩
    rw [hd] at this
    cases this
  simp only [arraySetLength, hne, ne_eq, not_false_eq_true, if_true]

theorem Agrees.pop (h : arr.Agrees a) (hpos : arr.length ≠ 0) :
    arr.pop.1 = a.own (a.length - 1) ∧ arr.pop.2.Agrees
      { own := update a.own (a.length - 1) none, length := a.length - 1 } := by
  refine ⟨?_, h.wf.pop, fun i => ?_, ?_⟩
  · rw [← h.reads, ← h.length]
    simp only [ArrayObject.pop, hpos, if_false]
    split <;> rfl
  · rw [ownElementValue_pop hpos, h.reads, h.length]
    exact (update_apply ..).symm
  · rw [← h.length]
    simp only [ArrayObject.pop, hpos, if_false]
    split <;> rfl

theorem Agrees.shift (h : arr.Agrees a) (hpos : arr.length ≠ 0) : arr.shift.1 = a.own 0 ∧
      arr.shift.2.Agrees { own := fun i => a.own (i + 1), length := a.length - 1 } := by
  refine ⟨?_, h.wf.shift, fun i => ?_, ?_⟩
  · simp only [ArrayObject.shift, hpos, if_false, h.reads]
  · rw [ownElementValue_shift h.wf hpos, h.reads]
  · rw [← h.length]
    simp only [ArrayObject.shift, hpos, if_false]

theorem Agrees.unshift (h : arr.Agrees a) (args : List V)
    (hroom : arr.length + args.length < 2 ^ 32) :
    (arr.unshift args).Agrees
      { own := fun i => if i < args.length then args[i]? else a.own (i - args.length)
        length := a.length + args.length } := by
  refine ⟨h.wf.unshift args hroom, fun i => ?_, ?_⟩
  · rw [ownElementValue_unshift h.wf args hroom, h.reads]
  · simp only [ArrayObject.unshift, widenElementsFor_foldl, h.length] at hroom ⊢
    rw [Nat.mod_eq_of_lt (h.length ▸ hroom)]

theorem Agrees.delete (h : arr.Agrees a) (idx : Nat) :
    (arr.deleteElement idx).Agrees { a with own := update a.own idx none } := by
  refine ⟨h.wf.deleteElement idx, fun i => ?_, ?_⟩
  · rw [ownElementValue_deleteElement, h.reads]
    exact (update_apply ..).symm
  show (arr.deleteElement idx).length = a.length
  rw [← h.length]
  unfold deleteElement
  split
  · split <;> rfl
  · rfl

/-- An admissible operation does what the definition says. -/
theorem Agrees.step (h : arr.Agrees a) (c : Chain V) (op : ArrayOp V) (hadm : arr.Admissible c op) :
    ∃ a', a.step c op = some ((arr.step op).1, a') ∧ (arr.step op).2.Agrees a' := by
  have hsize := h.length
  cases op with
  | store idx v =>
    refine ⟨_, ?_, h.store idx.2 v hadm.1⟩
    have hplace : ¬ (a.own idx = none ∧ c.intercepts idx = true) := by
      rintro ⟨hnone, hint⟩
      rw [hadm.2 (h.reads idx ▸ hnone)] at hint
      cases hint
    simp only [EsArray.step, hplace, if_false, ArrayObject.step]
  | delete idx => exact ⟨_, rfl, h.delete idx⟩
  | setLength d =>
    cases hd : exactLength d with
    | none =>
      refine ⟨a, ?_, ?_⟩
      · simp only [EsArray.step, hd, ArrayObject.step, arraySetLength_eq_none hd]
      · simp only [ArrayObject.step, arraySetLength_eq_none hd]
        exact h
    | some n =>
      obtain ⟨arr', harr, hagrees⟩ := h.setLength hd
      refine ⟨{ own := fun i => if i < n then a.own i else none, length := n }, ?_, ?_⟩
      · simp only [EsArray.step, hd, ArrayObject.step, harr]
      · simp only [ArrayObject.step, harr]
        exact hagrees
  | push args =>
    have hroom : arr.length + args.length < 2 ^ 32 := by
      by_cases hnil : args = []
      · subst hnil
        exact h.wf.length_lt
      · exact (hadm hnil).1
    have hpush := h.push args hroom fun hne => (hadm hne).2.1
    refine ⟨_, ?_, hpush⟩
    simp only [EsArray.step, ArrayObject.step, hpush.length]
    rw [if_pos (h.length ▸ hroom)]
    congr 4
    funext i
    by_cases hi : i < a.length
    · rw [if_pos hi, if_pos hi]
    rw [if_neg hi, if_neg hi]
    cases harg : args[i - a.length]? with
    | none => rfl
    | some v =>
      have hlt := (List.getElem?_eq_some_iff.mp harg).1
      have hne : args ≠ [] := by
        rintro rfl
        exact absurd hlt (not_lt_zero _)
      have hint := (hadm hne).2.2 i (by omega) (by omega)
      exact EsArray.bind_place (fun _ => hint) _
  | pop =>
    by_cases hpos : arr.length = 0
    · refine ⟨a, ?_, ?_⟩
      · simp only [EsArray.step, ← h.length, hpos, if_true, ArrayObject.step, ArrayObject.pop]
      · simp only [ArrayObject.step, ArrayObject.pop, hpos, if_true]
        exact h
    · obtain ⟨hres, hagrees⟩ := h.pop hpos
      refine ⟨_, ?_, hagrees⟩
      have hget : a.get c (a.length - 1) = a.own (a.length - 1) := by
        refine EsArray.get_eq_own fun hown => ?_
        rw [← h.length]
        exact hadm hpos (by rw [h.reads, h.length, hown])
      simp only [EsArray.step, ← hget, hres, ArrayObject.step]
      rw [if_neg (h.length ▸ hpos)]
  | shift =>
    by_cases hpos : arr.length = 0
    · refine ⟨a, ?_, ?_⟩
      · simp only [EsArray.step, ← h.length, hpos, if_true, ArrayObject.step, ArrayObject.shift]
      · simp only [ArrayObject.step, ArrayObject.shift, hpos, if_true]
        exact h
    · obtain ⟨hres, hagrees⟩ := h.shift hpos
      have hget (i : Nat) (hi : i < a.length) : a.get c i = a.own i :=
        EsArray.get_eq_own fun hown =>
          hadm i (by omega) (by rw [h.reads, hown])
      have hown : (fun i => if i + 1 < a.length then (a.get c (i + 1)).bind (a.place c i)
          else none) = fun i => a.own (i + 1) := by
        funext i
        by_cases hi : i + 1 < a.length
        · rw [if_pos hi, hget _ hi, EsArray.bind_place]
          intro hnone
          rw [Chain.intercepts, hadm i (by omega) (by rw [h.reads, hnone])]
          rfl
        · rw [if_neg hi, h.own_none (by omega)]
      refine ⟨{ own := fun i => a.own (i + 1), length := a.length - 1 }, ?_, hagrees⟩
      have hzero : 0 < a.length := by omega
      simp only [EsArray.step, ArrayObject.step, hres, hown, hget 0 hzero]
      rw [if_neg (by omega)]
  | unshift args =>
    by_cases hnil : args = []
    · subst hnil
      have hagrees := h.unshift [] h.wf.length_lt
      refine ⟨a, ?_, ?_⟩
      · simp only [EsArray.step, if_true, ArrayObject.step, hagrees.length]
      · refine ⟨hagrees.wf, fun i => ?_, hagrees.length⟩
        show (arr.unshift []).ownElementValue i = a.own i
        rw [hagrees.reads]
        rfl
    · obtain ⟨hroom, hholes, hint⟩ := hadm hnil
      have hagrees := h.unshift args hroom
      have hown : (fun i => if i < args.length then (args[i]?).bind (a.place c i)
          else if i < a.length + args.length then (a.get c (i - args.length)).bind (a.place c i)
          else none) =
          fun i => if i < args.length then args[i]? else a.own (i - args.length) := by
        funext i
        -- No store of the definition is intercepted.
        have hplace (hi : i < a.length + args.length)
            (hput : i < args.length ∨ a.own (i - args.length) ≠ none) (hnone : a.own i = none) :
            c.intercepts i = false := by
          by_cases hlt : i < a.length
          · rw [Chain.intercepts, hholes i (by omega) (by rw [h.reads, hnone])]
            rfl
          · refine hint i (by omega) (by omega) ?_
            rw [h.reads]
            exact hput
        by_cases hi : i < args.length
        · rw [if_pos hi, if_pos hi, EsArray.bind_place]
          exact hplace (by omega) (Or.inl hi)
        rw [if_neg hi, if_neg hi]
        by_cases hlen : i < a.length + args.length
        · rw [if_pos hlen, EsArray.get_eq_own fun hnone => hholes _ (by omega)
            (by rw [h.reads, hnone])]
          cases hval : a.own (i - args.length) with
          | none => rfl
          | some v =>
            rw [EsArray.bind_place]
            exact hplace hlen (Or.inr (by rw [hval]; exact Option.some_ne_none v))
        · rw [if_neg hlen, h.own_none (by omega)]
      refine ⟨_, ?_, hagrees⟩
      simp only [EsArray.step, hnil, if_false, ArrayObject.step, hown, hagrees.length]
      rw [if_pos (h.length ▸ hroom)]

end Steps

/-! ### Runs -/

theorem Agrees.run (ops : List (Chain V × ArrayOp V)) {arr : ArrayObject V} {a : EsArray V}
    (h : arr.Agrees a) (hadm : arr.AllAdmissible ops) :
    ∃ a', a.run ops = some ((arr.run ops).1, a') ∧ (arr.run ops).2.Agrees a' := by
  induction ops generalizing arr a with
  | nil => exact ⟨a, rfl, h⟩
  | cons op ops ih =>
    obtain ⟨a1, hstep, h1⟩ := h.step op.1 op.2 hadm.1
    obtain ⟨a2, hrun, h2⟩ := ih h1 hadm.2
    refine ⟨a2, ?_, h2⟩
    simp only [EsArray.run, hstep, hrun, bind, Option.bind, pure]
    rfl

theorem Agrees.empty : ({} : ArrayObject V).Agrees {} where
  wf := Wf.empty
  reads i := by simp [ownElementValue_eq, Lib.OrderedMap.find]
  length := rfl

/-- In every run from a new array whose operations are all admissible, the storage
answers what the definition answers and represents the array the definition gives. -/
theorem storage_refines (ops : List (Chain V × ArrayOp V))
    (hadm : ({} : ArrayObject V).AllAdmissible ops) :
    ∃ a, ({} : EsArray V).run ops = some ((({} : ArrayObject V).run ops).1, a) ∧
      (({} : ArrayObject V).run ops).2.Represents a := by
  obtain ⟨a, hrun, h⟩ := Agrees.empty.run ops hadm
  exact ⟨a, hrun, represents_of_wf h.wf h.reads h.length⟩

/-! ### Where they part -/

/-- Natural numbers as values: the small ones are Smis. -/
instance : ElementValue Nat where
  isSmi v := decide (v < 2 ^ 31)
  isNumber _ := true
  isNumber_of_isSmi _ _ := rfl

/-- No prototype chain. -/
def noChain : Chain Nat := fun _ => none

/-- An element stored behind the dense range and moved into it by two shifts. -/
def shiftedDown : List (Chain Nat × ArrayOp Nat) :=
  [(noChain, .store ⟨2 ^ 20, by decide⟩ 1), (noChain, .shift), (noChain, .shift)]

/-- The next `push` grows the dense vector over that element, which then reads as a hole;
and at the largest length `push` makes the length 0. -/
theorem push_hides_sparse : (¬ ∃ a, ({} : EsArray Nat).run (shiftedDown ++ [(noChain, .push [2])]) =
        some ((({} : ArrayObject Nat).run (shiftedDown ++ [(noChain, .push [2])])).1, a) ∧
      (({} : ArrayObject Nat).run (shiftedDown ++ [(noChain, .push [2])])).2.Represents a) ∧
    (({} : ArrayObject Nat).run
      [(noChain, .setLength (.finite (2 ^ 32 - 1))), (noChain, .push [2])]).2 =
        { elementsKind := .holeyTagged, length := 0, elements := [],
          sparse := [(2 ^ 32 - 1, 2)] } := by
  constructor
  · rintro ⟨a, hrun, hrep⟩
    have hown : a.own (2 ^ 20 - 2) = some 1 := by
      have hes : (({} : EsArray Nat).run (shiftedDown ++ [(noChain, .push [2])])).map
          (fun p => p.2.own (2 ^ 20 - 2)) = some (some 1) := by
        decide +kernel
      rw [hrun] at hes
      exact Option.some.inj hes
    have hgap :
        (({} : ArrayObject Nat).run (shiftedDown ++ [(noChain, .push [2])])).2.ownElementValue
          (2 ^ 20 - 2) = none := by
      have harr : (({} : ArrayObject Nat).run (shiftedDown ++ [(noChain, .push [2])])).2 =
          (({} : ArrayObject Nat).run shiftedDown).2.setArrayElement (2 ^ 20 - 1) 2 := by
        rfl
      rw [harr]
      exact ownElementValue_gap 2 (by decide +kernel) (by decide) (by decide)
    rw [hrep.reads, hown] at hgap
    cases hgap
  · decide +kernel

/-- A sequence with every operation. -/
def mixedOps : List (Chain Nat × ArrayOp Nat) :=
  [(noChain, .store ⟨2, by decide⟩ 7), (noChain, .push [8, 9]), (noChain, .unshift [6]),
    (noChain, .pop), (noChain, .delete ⟨3, by decide⟩), (noChain, .shift),
    (noChain, .setLength (.finite 2))]

theorem storage_refines_mixed :
    ∃ a, ({} : EsArray Nat).run mixedOps = some ((({} : ArrayObject Nat).run mixedOps).1, a) ∧
      (({} : ArrayObject Nat).run mixedOps).2.Represents a := by
  refine storage_refines mixedOps ?_
  have hnone (i : Nat) : noChain i = none := rfl
  have hint (i : Nat) : noChain.intercepts i = false := rfl
  simp only [mixedOps, AllAdmissible, Admissible, StoreFits, hnone, hint, implies_true, and_true]
  decide +kernel

end ArrayObject

end B2Compiler.Ts
