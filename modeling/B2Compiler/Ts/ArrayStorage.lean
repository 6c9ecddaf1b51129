import B2Compiler.Lib.OrderedMap
import Mathlib.Tactic.Ring

/-!
# Element storage of arrays

An array keeps its elements in two places: a dense vector with holes, and an ordered
sparse map for what lies outside it.  `length` is a 32-bit counter, and the elements
kind a promise about the values stored.  The operations are those of the shared
property implementation and of the array builtins that move elements.
-/

namespace B2Compiler.Ts

open Lib List

/-- What element storage asks about a value. -/
class ElementValue (V : Type) where
  isSmi : V → Bool
  isNumber : V → Bool
  isNumber_of_isSmi : ∀ v, isSmi v = true → isNumber v = true

/-- The numbers a length write can be given, by their mathematical value; both zeros
are 0. -/
inductive JsNumber where
  | nan
  | infinity (negative : Bool)
  | finite (q : ℚ)
  deriving DecidableEq

/-- `ToUint32`: truncate, then reduce modulo `2 ^ 32`. -/
def toUint32 : JsNumber → Nat
  | .nan => 0
  | .infinity _ => 0
  | .finite q => ((q.num.tdiv q.den) % 2 ^ 32).toNat

/-! ## Elements kinds -/

inductive ElementsKind where
  | packedSmi | holeySmi | packedDouble | holeyDouble | packedTagged | holeyTagged
  deriving DecidableEq, Repr

namespace ElementsKind

def holeyOf : ElementsKind → ElementsKind
  | .packedSmi | .holeySmi => .holeySmi
  | .packedDouble | .holeyDouble => .holeyDouble
  | .packedTagged | .holeyTagged => .holeyTagged

def isPacked : ElementsKind → Bool
  | .packedSmi | .packedDouble | .packedTagged => true
  | _ => false

variable {V : Type} [ElementValue V]

/-- The kind may hold the value. -/
def admits (k : ElementsKind) (v : V) : Bool :=
  match k with
  | .packedSmi | .holeySmi => ElementValue.isSmi v
  | .packedDouble | .holeyDouble => ElementValue.isNumber v
  | .packedTagged | .holeyTagged => true

/-- Transition of the kind before a value is stored. -/
def widenFor (k : ElementsKind) (v : V) : ElementsKind :=
  match k with
  | .packedSmi =>
    if ElementValue.isSmi v then .packedSmi
    else if ElementValue.isNumber v then .packedDouble else .packedTagged
  | .holeySmi =>
    if ElementValue.isSmi v then .holeySmi
    else if ElementValue.isNumber v then .holeyDouble else .holeyTagged
  | .packedDouble => if ElementValue.isNumber v then .packedDouble else .packedTagged
  | .holeyDouble => if ElementValue.isNumber v then .holeyDouble else .holeyTagged
  | .packedTagged => .packedTagged
  | .holeyTagged => .holeyTagged

@[simp] theorem admits_holeyOf (k : ElementsKind) (v : V) : k.holeyOf.admits v = k.admits v := by
  cases k <;> rfl

@[simp] theorem isPacked_holeyOf (k : ElementsKind) : k.holeyOf.isPacked = false := by
  cases k <;> rfl

theorem isPacked_widenFor (k : ElementsKind) (v : V) : (k.widenFor v).isPacked = k.isPacked := by
  cases k <;> grind [widenFor, isPacked]

theorem admits_widenFor_self (k : ElementsKind) (v : V) : (k.widenFor v).admits v = true := by
  cases k <;> grind [widenFor, admits]

theorem admits_widenFor (k : ElementsKind) (v w : V) (h : k.admits w = true) :
    (k.widenFor v).admits w = true := by
  have hsmi := ElementValue.isNumber_of_isSmi w
  cases k <;> grind [widenFor, admits]

end ElementsKind

/-! ## The array object -/

/-- Beyond this index stores go to the sparse map. -/
def kMaxDenseElements : Nat := 2 ^ 20

/-- The array part of an object.  A hole is `none`. -/
structure ArrayObject (V : Type) where
  elementsKind : ElementsKind := .packedSmi
  length : Nat := 0
  elements : List (Option V) := []
  sparse : List (Nat × V) := []
  deriving DecidableEq

/-- An index that names an element. -/
abbrev ArrayIndex : Type := { i : Nat // i < 2 ^ 32 - 1 }

namespace ArrayObject

variable {V : Type} [ElementValue V] (arr : ArrayObject V)

/-- Dense slots answer for their range, holes included; the sparse map for the rest. -/
def ownElementValue (idx : Nat) : Option V :=
  if idx < arr.elements.length then arr.elements.getD idx none else OrderedMap.find arr.sparse idx

def widenElementsFor (v : V) : ArrayObject V :=
  { arr with elementsKind := arr.elementsKind.widenFor v }

/-- `length` after a store at `idx`, on 32 bits. -/
def bump (length idx : Nat) : Nat := if length ≤ idx then (idx + 1) % 2 ^ 32 else length

def setArrayElement (idx : Nat) (v : V) : ArrayObject V :=
  if idx < arr.elements.length then
    let arr := arr.widenElementsFor v
    { arr with elements := arr.elements.set idx (some v), length := bump arr.length idx }
  else if idx < kMaxDenseElements then
    -- The slots of the gap are holes.
    let gap := replicate (idx + 1 - arr.elements.length) none
    let grown := { arr with
      elements := arr.elements ++ gap, elementsKind := arr.elementsKind.holeyOf }
    let grown := grown.widenElementsFor v
    { grown with elements := grown.elements.set idx (some v), length := bump grown.length idx }
  else
    { arr with
      sparse := OrderedMap.insert arr.sparse idx v
      elementsKind := .holeyTagged
      length := bump arr.length idx }

/-- The array part of `deletePropertyImpl`; the answer is always `true`. -/
def deleteElement (idx : Nat) : ArrayObject V :=
  if idx < arr.elements.length then
    if (arr.elements.getD idx none).isNone then arr
    else { arr with
      elements := arr.elements.set idx none, elementsKind := arr.elementsKind.holeyOf }
  else { arr with sparse := OrderedMap.erase arr.sparse idx }

/-- Cut the storage down to `uintLen`. -/
def shrink (uintLen : Nat) : ArrayObject V :=
  let madeHole := (arr.elements.drop uintLen).any Option.isSome
  { elements := arr.elements.take uintLen ++ replicate (arr.elements.length - uintLen) none
    sparse := arr.sparse.filter fun e => e.1 < uintLen
    elementsKind := if madeHole then arr.elementsKind.holeyOf else arr.elementsKind
    length := uintLen }

/-- Write of `length`, after `ToNumber`; `none` is the RangeError. -/
def arraySetLength (lenNum : JsNumber) : Option (ArrayObject V) :=
  let uintLen := toUint32 lenNum
  if JsNumber.finite uintLen ≠ lenNum then none
  else if arr.length ≤ uintLen then some { arr with length := uintLen }
  else some (arr.shrink uintLen)

/-- Each argument is stored at the length of its moment. -/
def push (args : List V) : ArrayObject V :=
  args.foldl (fun arr v => arr.setArrayElement arr.length v) arr

/-- The element taken off, `none` for `undefined`, and the array. -/
def pop : Option V × ArrayObject V :=
  if arr.length = 0 then (none, arr)
  else
    let idx := arr.length - 1
    let v := arr.ownElementValue idx
    if idx < arr.elements.length then
      (v, { arr with
        elements := arr.elements.set idx none
        elementsKind := arr.elementsKind.holeyOf
        length := idx })
    else (v, { arr with sparse := OrderedMap.erase arr.sparse idx, length := idx })

def shift : Option V × ArrayObject V :=
  if arr.length = 0 then (none, arr)
  else
    let first := arr.ownElementValue 0
    (first, { arr with
      elements := arr.elements.tail
      sparse := OrderedMap.rekey (fun k => k - 1)
        (arr.sparse.filter fun e => 0 < e.1 ∧ e.1 < arr.length)
      length := arr.length - 1 })

/-- The arguments are inserted before the dense slots, and the sparse keys renumbered,
on 32 bits as `length` is. -/
def unshift (args : List V) : ArrayObject V :=
  let arr := args.foldl widenElementsFor arr
  { arr with
    elements := args.map some ++ arr.elements
    sparse :=
      if args.isEmpty then arr.sparse
      else OrderedMap.rekey (fun k => (k + args.length) % 2 ^ 32) arr.sparse
    length := (arr.length + args.length) % 2 ^ 32 }

def ownIndexKeys : List Nat :=
  ((range (min arr.length arr.elements.length)).filter fun i =>
      (arr.elements.getD i none).isSome) ++
    (arr.sparse.map Prod.fst).filter (· < arr.length)

end ArrayObject

inductive ArrayOp (V : Type) where
  | store (idx : ArrayIndex) (v : V)
  | delete (idx : ArrayIndex)
  | setLength (lenNum : JsNumber)
  | push (args : List V)
  | pop
  | shift
  | unshift (args : List V)

/-- What an operation answers. -/
inductive OpResult (V : Type) where
  | done
  | rangeError
  | length (n : Nat)
  /-- An element taken off; `none` is `undefined`. -/
  | value (v : Option V)
  deriving DecidableEq

namespace ArrayObject

variable {V : Type} [ElementValue V]

def step (arr : ArrayObject V) : ArrayOp V → OpResult V × ArrayObject V
  | .store idx v => (.done, arr.setArrayElement idx v)
  | .delete idx => (.done, arr.deleteElement idx)
  | .setLength lenNum =>
    match arr.arraySetLength lenNum with
    | some arr' => (.done, arr')
    | none => (.rangeError, arr)
  | .push args => (.length (arr.push args).length, arr.push args)
  | .pop => (.value arr.pop.1, arr.pop.2)
  | .shift => (.value arr.shift.1, arr.shift.2)
  | .unshift args => (.length (arr.unshift args).length, arr.unshift args)

/-- A value stands in one of the two storages. -/
def Holds (arr : ArrayObject V) (v : V) : Prop :=
  some v ∈ arr.elements ∨ ∃ k, (k, v) ∈ arr.sparse

/-- The sparse keys lie behind the dense slots, every own index is below a 32-bit
`length`, and the kind is sound. -/
structure Wf (arr : ArrayObject V) : Prop where
  length_lt : arr.length < 2 ^ 32
  sorted : OrderedMap.Sorted arr.sparse
  apart : ∀ e ∈ arr.sparse, arr.elements.length ≤ e.1
  below : ∀ i, (arr.ownElementValue i).isSome → i < arr.length
  kinds : ∀ v, arr.Holds v → arr.elementsKind.admits v = true
  packed : arr.elementsKind.isPacked = true → none ∉ arr.elements

theorem ownElementValue_eq (arr : ArrayObject V) (i : Nat) :
    arr.ownElementValue i = (arr.elements[i]?).getD (OrderedMap.find arr.sparse i) := by
  unfold ownElementValue
  by_cases hi : i < arr.elements.length
  · rw [if_pos hi, getD_eq_getElem?_getD, getElem?_eq_getElem hi]
    rfl
  · rw [if_neg hi, getElem?_eq_none (Nat.not_lt.mp hi)]
    rfl

theorem Wf.empty : Wf ({} : ArrayObject V) where
  length_lt := Nat.two_pow_pos 32
  sorted := List.Pairwise.nil
  apart e h := by cases h
  below i h := by simp [ownElementValue_eq, OrderedMap.find] at h
  kinds v h := by simp [Holds] at h
  packed _ := by simp

/-! ### What the operations do to reads -/

section Reads

variable {arr : ArrayObject V}

/-- A store that does not grow the dense vector over a sparse key changes one read. -/
theorem ownElementValue_setArrayElement {idx : Nat} (v : V)
    (hgrow : idx < arr.elements.length ∨ kMaxDenseElements ≤ idx ∨ ∀ e ∈ arr.sparse, idx < e.1)
    (i : Nat) : (arr.setArrayElement idx v).ownElementValue i =
      if i = idx then some v else arr.ownElementValue i := by
  simp only [ownElementValue_eq]
  unfold setArrayElement
  by_cases hin : idx < arr.elements.length
  · simp only [hin, if_true, widenElementsFor]
    rw [getElem?_set]
    grind
  simp only [hin, if_false]
  by_cases hmax : idx < kMaxDenseElements
  · simp only [hmax, if_true, widenElementsFor]
    have hfree : ∀ e ∈ arr.sparse, idx < e.1 := by
      rcases hgrow with h | h | h
      · exact absurd h hin
      · exact absurd hmax (Nat.not_lt.mpr h)
      · exact h
    have hnone (hle : i ≤ idx) : OrderedMap.find arr.sparse i = none := by
      refine OrderedMap.find_eq_none_iff.mpr fun e he => ?_
      have := hfree e he
      omega
    rw [getElem?_set, getElem?_append, getElem?_replicate]
    grind
  · simp only [hmax, if_false]
    rw [OrderedMap.find_insert]
    by_cases hi : i = idx
    · subst hi
      rw [getElem?_eq_none (Nat.not_lt.mp hin)]
      simp
    · simp [hi]

/-- A store in the dense range leaves holes in the gap, whatever the sparse map has there. -/
theorem ownElementValue_gap {idx i : Nat} (v : V) (hin : arr.elements.length ≤ i) (hi : i < idx)
    (hmax : idx < kMaxDenseElements) : (arr.setArrayElement idx v).ownElementValue i = none := by
  have hout : ¬ idx < arr.elements.length := by omega
  simp only [ownElementValue_eq, setArrayElement, hout, if_false, hmax, if_true, widenElementsFor]
  rw [getElem?_set, getElem?_append, getElem?_replicate]
  grind

theorem ownElementValue_deleteElement (idx i : Nat) : (arr.deleteElement idx).ownElementValue i =
      if i = idx then none else arr.ownElementValue i := by
  simp only [ownElementValue_eq]
  unfold deleteElement
  by_cases hin : idx < arr.elements.length
  · simp only [hin, if_true]
    split
    · rename_i hhole
      have hget : arr.elements[idx]? = some none := by
        rw [getD_eq_getElem?_getD, getElem?_eq_getElem hin] at hhole
        rw [getElem?_eq_getElem hin]
        exact congrArg some (Option.isNone_iff_eq_none.mp hhole)
      by_cases hi : i = idx
      · rw [if_pos hi, hi, hget]
        rfl
      · rw [if_neg hi]
    · rw [getElem?_set]
      grind
  · simp only [hin, if_false, OrderedMap.find_erase]
    grind

theorem ownElementValue_shrink (n i : Nat) :
    (arr.shrink n).ownElementValue i = if i < n then arr.ownElementValue i else none := by
  have hfind := OrderedMap.find_filter arr.sparse (fun k => decide (k < n)) i
  simp only [ownElementValue_eq, shrink, hfind]
  rw [getElem?_append, getElem?_take, getElem?_replicate, length_take]
  grind

theorem ownElementValue_pop (hpos : arr.length ≠ 0) (i : Nat) : arr.pop.2.ownElementValue i =
      if i = arr.length - 1 then none else arr.ownElementValue i := by
  simp only [ownElementValue_eq]
  unfold pop
  simp only [hpos, if_false]
  split
  · rw [getElem?_set]
    grind
  · simp only [OrderedMap.find_erase]
    grind

/-- Behind the first element everything moves down by one. -/
theorem ownElementValue_shift (hw : arr.Wf) (hpos : arr.length ≠ 0) (i : Nat) :
    arr.shift.2.ownElementValue i = arr.ownElementValue (i + 1) := by
  have hbelow := hw.below (i + 1)
  simp only [ownElementValue_eq] at hbelow ⊢
  unfold shift
  simp only [hpos, if_false]
  rw [getElem?_tail]
  cases hdense : arr.elements[i + 1]? with
  | some e => rfl
  | none =>
    have hfilter := OrderedMap.find_filter arr.sparse (fun k => decide (0 < k ∧ k < arr.length))
      (i + 1)
    have hinj : ∀ e ∈ arr.sparse.filter fun e => 0 < e.1 ∧ e.1 < arr.length,
        e.1 - 1 = i + 1 - 1 → e.1 = i + 1 := by
      intro e he heq
      have hpos := (mem_filter.mp he).2
      simp only [decide_eq_true_eq] at hpos
      omega
    have hrekey := OrderedMap.find_rekey (fun k => k - 1)
      (OrderedMap.sorted_filter hw.sorted fun e => decide (0 < e.1 ∧ e.1 < arr.length)) (i + 1)
      hinj
    simp only [Nat.add_sub_cancel] at hrekey
    rw [Option.getD_none, Option.getD_none, hrekey, hfilter]
    rw [hdense, Option.getD_none] at hbelow
    cases hfind : OrderedMap.find arr.sparse (i + 1) with
    | none => simp
    | some v =>
      rw [hfind] at hbelow
      have hlt := hbelow rfl
      rw [if_pos (by simp only [decide_eq_true_eq]; omega)]

theorem widenElementsFor_foldl (args : List V) (arr : ArrayObject V) :
    args.foldl widenElementsFor arr =
      { arr with elementsKind := args.foldl ElementsKind.widenFor arr.elementsKind } := by
  induction args generalizing arr with
  | nil => rfl
  | cons v args ih => rw [foldl_cons, ih, foldl_cons, widenElementsFor]

/-- The arguments come first, everything else moves up, while the counter has room. -/
theorem ownElementValue_unshift (hw : arr.Wf) (args : List V)
    (hroom : arr.length + args.length < 2 ^ 32) (i : Nat) :
    (arr.unshift args).ownElementValue i =
      if i < args.length then args[i]? else arr.ownElementValue (i - args.length) := by
  simp only [ownElementValue_eq, unshift, widenElementsFor_foldl]
  rw [getElem?_append, length_map, getElem?_map]
  by_cases hi : i < args.length
  · rw [if_pos hi, if_pos hi, getElem?_eq_getElem hi]
    rfl
  rw [if_neg hi, if_neg hi]
  cases hdense : arr.elements[i - args.length]? with
  | some e => rfl
  | none =>
    rw [Option.getD_none, Option.getD_none]
    by_cases hnil : args = []
    · subst hnil
      simp
    have hne : args.isEmpty = false := by simp [hnil]
    rw [hne, if_neg (by decide)]
    have hkey : ∀ e ∈ arr.sparse, e.1 + args.length < 2 ^ 32 := by
      intro e he
      have hfind := OrderedMap.find_of_mem hw.sorted he
      have hread := hw.below e.1
      rw [ownElementValue_eq, getElem?_eq_none (hw.apart e he), Option.getD_none, hfind] at hread
      have := hread rfl
      omega
    by_cases hmem : i - args.length ∈ arr.sparse.map Prod.fst
    · obtain ⟨e, he, hek⟩ := mem_map.mp hmem
      have hlt := hkey e he
      have hrekey := OrderedMap.find_rekey (fun k => (k + args.length) % 2 ^ 32) hw.sorted
        (i - args.length) (by
          intro d hd heq
          have := hkey d hd
          rw [Nat.mod_eq_of_lt this, Nat.mod_eq_of_lt (by omega)] at heq
          omega)
      have hindex : (i - args.length + args.length) % 2 ^ 32 = i := by
        rw [Nat.mod_eq_of_lt (by omega)]
        omega
      rw [hindex] at hrekey
      exact hrekey
    · have hnone : OrderedMap.find arr.sparse (i - args.length) = none := by
        refine OrderedMap.find_eq_none_iff.mpr fun e he heq => hmem ?_
        exact mem_map.mpr ⟨e, he, heq⟩
      rw [hnone]
      refine OrderedMap.find_rekey_of_ne _ _ i fun e he heq => hmem ?_
      have := hkey e he
      rw [Nat.mod_eq_of_lt this] at heq
      exact mem_map.mpr ⟨e, he, by omega⟩

end Reads

/-! ### The invariant is kept -/

variable {length idx : Nat}

theorem le_bump (hidx : idx < 2 ^ 32 - 1) : length ≤ bump length idx := by
  unfold bump
  split
  · rw [Nat.mod_eq_of_lt (by omega)]
    omega
  · exact Nat.le_refl _

theorem lt_bump (hidx : idx < 2 ^ 32 - 1) : idx < bump length idx := by
  unfold bump
  split
  · rw [Nat.mod_eq_of_lt (by omega)]
    omega
  · omega

theorem bump_lt (h : length < 2 ^ 32) : bump length idx < 2 ^ 32 := by
  unfold bump
  split
  · exact Nat.mod_lt _ (Nat.two_pow_pos 32)
  · exact h

section Invariant

variable {arr : ArrayObject V}

theorem Wf.sparse_lt (hw : arr.Wf) {e : Nat × V} (he : e ∈ arr.sparse) : e.1 < arr.length := by
  refine hw.below e.1 ?_
  rw [ownElementValue_eq, getElem?_eq_none (hw.apart e he), Option.getD_none,
    OrderedMap.find_of_mem hw.sorted he]
  rfl

theorem Wf.setArrayElement (hw : arr.Wf) {idx : Nat} (hidx : idx < 2 ^ 32 - 1) (v : V)
    (hgrow : idx < arr.elements.length ∨ kMaxDenseElements ≤ idx ∨ ∀ e ∈ arr.sparse, idx < e.1) :
    (arr.setArrayElement idx v).Wf := by
  have hbelow : ∀ i, ((arr.setArrayElement idx v).ownElementValue i).isSome →
      i < bump arr.length idx := by
    intro i hi
    rw [ownElementValue_setArrayElement v hgrow] at hi
    by_cases heq : i = idx
    · rw [heq]
      exact lt_bump hidx
    · rw [if_neg heq] at hi
      exact Nat.lt_of_lt_of_le (hw.below i hi) (le_bump hidx)
  have hlt : bump arr.length idx < 2 ^ 32 := bump_lt hw.length_lt
  unfold ArrayObject.setArrayElement at hbelow ⊢
  by_cases hin : idx < arr.elements.length
  · simp only [hin, if_true, widenElementsFor] at hbelow ⊢
    refine ⟨hlt, hw.sorted, ?_, hbelow, ?_, ?_⟩
    · intro e he
      rw [length_set]
      exact hw.apart e he
    · intro w hwh
      rcases hwh with hmem | hmem
      · rcases mem_or_eq_of_mem_set hmem with hmem | heq
        · exact ElementsKind.admits_widenFor _ _ _ (hw.kinds w (Or.inl hmem))
        · rw [Option.some.inj heq]
          exact ElementsKind.admits_widenFor_self _ _
      · exact ElementsKind.admits_widenFor _ _ _ (hw.kinds w (Or.inr hmem))
    · intro hp hmem
      rw [ElementsKind.isPacked_widenFor] at hp
      rcases mem_or_eq_of_mem_set hmem with hmem | heq
      · exact hw.packed hp hmem
      · cases heq
  simp only [hin, if_false] at hbelow ⊢
  by_cases hmax : idx < kMaxDenseElements
  · simp only [hmax, if_true, widenElementsFor] at hbelow ⊢
    refine ⟨hlt, hw.sorted, ?_, hbelow, ?_, ?_⟩
    · intro e he
      have hfree : idx < e.1 := by
        rcases hgrow with h | h | h
        · exact absurd h hin
        · exact absurd hmax (Nat.not_lt.mpr h)
        · exact h e he
      rw [length_set, length_append, length_replicate]
      omega
    · intro w hwh
      rcases hwh with hmem | hmem
      · rcases mem_or_eq_of_mem_set hmem with hmem | heq
        · rcases mem_append.mp hmem with hmem | hmem
          · refine ElementsKind.admits_widenFor _ _ _ ?_
            rw [ElementsKind.admits_holeyOf]
            exact hw.kinds w (Or.inl hmem)
          · cases eq_of_mem_replicate hmem
        · rw [Option.some.inj heq]
          exact ElementsKind.admits_widenFor_self _ _
      · refine ElementsKind.admits_widenFor _ _ _ ?_
        rw [ElementsKind.admits_holeyOf]
        exact hw.kinds w (Or.inr hmem)
    · intro hp
      rw [ElementsKind.isPacked_widenFor, ElementsKind.isPacked_holeyOf] at hp
      cases hp
  · simp only [hmax, if_false] at hbelow ⊢
    refine ⟨hlt, OrderedMap.sorted_insert hw.sorted _ _, ?_, hbelow, fun _ _ => rfl, ?_⟩
    · intro e he
      rcases OrderedMap.mem_insert he with rfl | he
      · exact Nat.not_lt.mp hin
      · exact hw.apart e he
    · intro hp
      cases hp

theorem Wf.deleteElement (hw : arr.Wf) (idx : Nat) : (arr.deleteElement idx).Wf := by
  have hread : ∀ i, (arr.deleteElement idx).ownElementValue i =
      if i = idx then none else arr.ownElementValue i := ownElementValue_deleteElement idx
  have hbelow : ∀ i, ((arr.deleteElement idx).ownElementValue i).isSome → i < arr.length := by
    intro i hi
    rw [hread] at hi
    split at hi
    · cases hi
    · exact hw.below i hi
  unfold ArrayObject.deleteElement at hbelow ⊢
  split
  · split
    · exact hw
    rename_i hin hhole
    simp only [hin, if_true, hhole] at hbelow
    refine ⟨hw.length_lt, hw.sorted, ?_, hbelow, ?_, ?_⟩
    · intro e he
      rw [length_set]
      exact hw.apart e he
    · intro w hwh
      rw [ElementsKind.admits_holeyOf]
      rcases hwh with hmem | hmem
      · rcases mem_or_eq_of_mem_set hmem with hmem | heq
        · exact hw.kinds w (Or.inl hmem)
        · cases heq
      · exact hw.kinds w (Or.inr hmem)
    · intro hp
      rw [ElementsKind.isPacked_holeyOf] at hp
      cases hp
  · rename_i hin
    simp only [hin, if_false] at hbelow
    refine ⟨hw.length_lt, OrderedMap.sorted_erase hw.sorted idx, ?_, hbelow, ?_, hw.packed⟩
    · intro e he
      exact hw.apart e (mem_filter.mp he).1
    · intro w hwh
      rcases hwh with hmem | ⟨k, hmem⟩
      · exact hw.kinds w (Or.inl hmem)
      · exact hw.kinds w (Or.inr ⟨k, (mem_filter.mp hmem).1⟩)

theorem Wf.shrink (hw : arr.Wf) {n : Nat} (hn : n < 2 ^ 32) : (arr.shrink n).Wf := by
  refine ⟨hn, OrderedMap.sorted_filter hw.sorted _, ?_, ?_, ?_, ?_⟩
  · intro e he
    have hlen := hw.apart e (mem_filter.mp he).1
    simp only [ArrayObject.shrink, length_append, length_take, length_replicate]
    omega
  · intro i hi
    rw [ownElementValue_shrink] at hi
    split at hi
    · assumption
    · cases hi
  · intro w hwh
    have hold : arr.elementsKind.admits w = true := by
      rcases hwh with hmem | ⟨k, hmem⟩
      · rcases mem_append.mp hmem with hmem | hmem
        · exact hw.kinds w (Or.inl (mem_of_mem_take hmem))
        · cases eq_of_mem_replicate hmem
      · exact hw.kinds w (Or.inr ⟨k, (mem_filter.mp hmem).1⟩)
    simp only [ArrayObject.shrink]
    split
    · rw [ElementsKind.admits_holeyOf, hold]
    · exact hold
  · intro hp hmem
    simp only [ArrayObject.shrink] at hp hmem
    split at hp
    · rw [ElementsKind.isPacked_holeyOf] at hp
      cases hp
    rename_i hmade
    rcases mem_append.mp hmem with hmem | hmem
    · exact hw.packed hp (mem_of_mem_take hmem)
    -- A packed vector longer than `n` has an element there to make a hole of.
    have hlong : n < arr.elements.length := by
      have := ne_nil_of_mem hmem
      rw [ne_eq, replicate_eq_nil_iff] at this
      omega
    have hhole : arr.elements[n] = none := by
      have hall := any_eq_false.mp (Bool.eq_false_iff.mpr hmade) arr.elements[n]
        (by rw [drop_eq_getElem_cons hlong]; exact mem_cons_self)
      simpa using hall
    exact hw.packed hp (hhole ▸ getElem_mem hlong)

theorem Wf.pop (hw : arr.Wf) : arr.pop.2.Wf := by
  by_cases hpos : arr.length = 0
  · simp only [ArrayObject.pop, hpos, if_true]
    exact hw
  have hbelow : ∀ i, (arr.pop.2.ownElementValue i).isSome → i < arr.length - 1 := by
    intro i hi
    rw [ownElementValue_pop hpos] at hi
    split at hi
    · cases hi
    · have := hw.below i hi
      omega
  have hlt : arr.length - 1 < 2 ^ 32 := by
    have := hw.length_lt
    omega
  unfold ArrayObject.pop at hbelow ⊢
  simp only [hpos, if_false] at hbelow ⊢
  split
  · rename_i hin
    simp only [hin, if_true] at hbelow
    refine ⟨hlt, hw.sorted, ?_, hbelow, ?_, ?_⟩
    · intro e he
      rw [length_set]
      exact hw.apart e he
    · intro w hwh
      rw [ElementsKind.admits_holeyOf]
      rcases hwh with hmem | hmem
      · rcases mem_or_eq_of_mem_set hmem with hmem | heq
        · exact hw.kinds w (Or.inl hmem)
        · cases heq
      · exact hw.kinds w (Or.inr hmem)
    · intro hp
      rw [ElementsKind.isPacked_holeyOf] at hp
      cases hp
  · rename_i hin
    simp only [hin, if_false] at hbelow
    refine ⟨hlt, OrderedMap.sorted_erase hw.sorted _, ?_, hbelow, ?_, hw.packed⟩
    · intro e he
      exact hw.apart e (mem_filter.mp he).1
    · intro w hwh
      rcases hwh with hmem | ⟨k, hmem⟩
      · exact hw.kinds w (Or.inl hmem)
      · exact hw.kinds w (Or.inr ⟨k, (mem_filter.mp hmem).1⟩)

theorem Wf.shift (hw : arr.Wf) : arr.shift.2.Wf := by
  by_cases hpos : arr.length = 0
  · simp only [ArrayObject.shift, hpos, if_true]
    exact hw
  have hbelow : ∀ i, (arr.shift.2.ownElementValue i).isSome → i < arr.length - 1 := by
    intro i hi
    rw [ownElementValue_shift hw hpos] at hi
    have := hw.below _ hi
    omega
  have hlt : arr.length - 1 < 2 ^ 32 := by
    have := hw.length_lt
    omega
  unfold ArrayObject.shift at hbelow ⊢
  simp only [hpos, if_false] at hbelow ⊢
  refine ⟨hlt, OrderedMap.sorted_rekey (fun k => k - 1) _, ?_, hbelow, ?_, ?_⟩
  · intro e he
    obtain ⟨d, hd, rfl⟩ := OrderedMap.mem_rekey (f := fun k => k - 1)
      (m := arr.sparse.filter fun e => 0 < e.1 ∧ e.1 < arr.length) he
    have := hw.apart d (mem_filter.mp hd).1
    rw [length_tail]
    simp only
    omega
  · intro w hwh
    rcases hwh with hmem | ⟨k, hmem⟩
    · exact hw.kinds w (Or.inl (mem_of_mem_tail hmem))
    · obtain ⟨d, hd, heq⟩ := OrderedMap.mem_rekey (f := fun k => k - 1)
        (m := arr.sparse.filter fun e => 0 < e.1 ∧ e.1 < arr.length) hmem
      obtain ⟨-, rfl⟩ := Prod.mk.inj heq
      exact hw.kinds _ (Or.inr ⟨d.1, (mem_filter.mp hd).1⟩)
  · intro hp hmem
    exact hw.packed hp (mem_of_mem_tail hmem)

theorem admits_foldl_widenFor (args : List V) (k : ElementsKind) (w : V)
    (h : k.admits w = true ∨ w ∈ args) : (args.foldl ElementsKind.widenFor k).admits w = true := by
  induction args generalizing k with
  | nil =>
    rcases h with h | h
    · exact h
    · cases h
  | cons v args ih =>
    refine ih _ ?_
    rcases h with h | h
    · exact Or.inl (ElementsKind.admits_widenFor k v w h)
    · rcases mem_cons.mp h with rfl | h
      · exact Or.inl (ElementsKind.admits_widenFor_self k w)
      · exact Or.inr h

theorem isPacked_foldl_widenFor (args : List V) (k : ElementsKind) :
    (args.foldl ElementsKind.widenFor k).isPacked = k.isPacked := by
  induction args generalizing k with
  | nil => rfl
  | cons v args ih => rw [foldl_cons, ih, ElementsKind.isPacked_widenFor]

theorem Wf.unshift (hw : arr.Wf) (args : List V)
    (hroom : arr.length + args.length < 2 ^ 32) : (arr.unshift args).Wf := by
  have hlen : (arr.length + args.length) % 2 ^ 32 = arr.length + args.length :=
    Nat.mod_eq_of_lt hroom
  have hbelow : ∀ i, ((arr.unshift args).ownElementValue i).isSome →
      i < (arr.length + args.length) % 2 ^ 32 := by
    intro i hi
    rw [ownElementValue_unshift hw args hroom] at hi
    rw [hlen]
    split at hi
    · omega
    · have := hw.below _ hi
      omega
  have hsparse : args.isEmpty = false → (arr.unshift args).sparse =
      OrderedMap.rekey (fun k => (k + args.length) % 2 ^ 32) arr.sparse := by
    intro hne
    simp only [ArrayObject.unshift, widenElementsFor_foldl, hne, Bool.false_eq_true, if_false]
  have hempty : args.isEmpty = true → (arr.unshift args).sparse = arr.sparse := by
    intro hnil
    simp only [ArrayObject.unshift, widenElementsFor_foldl, hnil, if_true]
  have hstate : (arr.unshift args).elements = args.map some ++ arr.elements ∧
      (arr.unshift args).elementsKind = args.foldl ElementsKind.widenFor arr.elementsKind ∧
      (arr.unshift args).length = (arr.length + args.length) % 2 ^ 32 := by
    simp only [ArrayObject.unshift, widenElementsFor_foldl, and_self]
  obtain ⟨hels, hkind, hlength⟩ := hstate
  refine ⟨?_, ?_, ?_, fun i hi => hlength ▸ hbelow i hi, ?_, ?_⟩
  · rw [hlength]
    exact Nat.mod_lt _ (Nat.two_pow_pos 32)
  · cases hargs : args.isEmpty with
    | true =>
      rw [hempty hargs]
      exact hw.sorted
    | false =>
      rw [hsparse hargs]
      exact OrderedMap.sorted_rekey _ _
  · intro e he
    rw [hels, length_append, length_map]
    cases hargs : args.isEmpty with
    | true =>
      rw [hempty hargs] at he
      rw [isEmpty_iff.mp hargs, length_nil, Nat.zero_add]
      exact hw.apart e he
    | false =>
      rw [hsparse hargs] at he
      obtain ⟨d, hd, rfl⟩ := OrderedMap.mem_rekey he
      have hd' := hw.apart d hd
      have hlt := hw.sparse_lt hd
      rw [Nat.mod_eq_of_lt (by omega)]
      omega
  · intro w hwh
    rw [hkind]
    refine admits_foldl_widenFor args _ w ?_
    rcases hwh with hmem | ⟨k, hmem⟩
    · rw [hels] at hmem
      rcases mem_append.mp hmem with hmem | hmem
      · obtain ⟨v, hv, heq⟩ := mem_map.mp hmem
        exact Or.inr (Option.some.inj heq ▸ hv)
      · exact Or.inl (hw.kinds w (Or.inl hmem))
    · refine Or.inl (hw.kinds w (Or.inr ?_))
      cases hargs : args.isEmpty with
      | true => exact ⟨k, hempty hargs ▸ hmem⟩
      | false =>
        rw [hsparse hargs] at hmem
        obtain ⟨d, hd, heq⟩ := OrderedMap.mem_rekey hmem
        obtain ⟨-, rfl⟩ := Prod.mk.inj heq
        exact ⟨d.1, hd⟩
  · intro hp hmem
    rw [hkind, isPacked_foldl_widenFor] at hp
    rw [hels] at hmem
    rcases mem_append.mp hmem with hmem | hmem
    · obtain ⟨v, -, heq⟩ := mem_map.mp hmem
      cases heq
    · exact hw.packed hp hmem

end Invariant

/-! ### Listing -/

/-- The listed keys are the own indices, in ascending order. -/
theorem Wf.ownIndexKeys_eq {arr : ArrayObject V} (hw : arr.Wf) :
    arr.ownIndexKeys = (range arr.length).filter fun i => (arr.ownElementValue i).isSome := by
  have hdense : ∀ i, i < arr.elements.length →
      ((arr.elements.getD i none).isSome ↔ (arr.ownElementValue i).isSome) := by
    intro i hi
    rw [ownElementValue, if_pos hi]
  have hsparse : ∀ i, i ∈ arr.sparse.map Prod.fst ↔
      arr.elements.length ≤ i ∧ (arr.ownElementValue i).isSome := by
    intro i
    constructor
    · intro hmem
      obtain ⟨e, he, rfl⟩ := mem_map.mp hmem
      have hle := hw.apart e he
      rw [ownElementValue, if_neg (Nat.not_lt.mpr hle), OrderedMap.isSome_find_iff]
      exact ⟨hle, hmem⟩
    · rintro ⟨hle, hsome⟩
      rwa [ownElementValue, if_neg (Nat.not_lt.mpr hle), OrderedMap.isSome_find_iff] at hsome
  refine List.Pairwise.eq_of_mem_iff (r := (· < ·)) ?_ (pairwise_lt_range.filter _) ?_
  · refine pairwise_append.mpr ⟨pairwise_lt_range.filter _, ?_, ?_⟩
    · exact (pairwise_map.mpr hw.sorted).filter _
    · intro i hi j hj
      have hlt := mem_range.mp (mem_filter.mp hi).1
      have hle := ((hsparse j).mp (mem_filter.mp hj).1).1
      omega
  · intro i
    have hbelow := hw.below i
    simp only [ownIndexKeys, mem_append, mem_filter, mem_range, decide_eq_true_eq, hsparse]
    constructor
    · rintro (⟨hlt, hsome⟩ | ⟨⟨-, hsome⟩, hlt⟩)
      · have hin : i < arr.elements.length := by omega
        have := (hdense i hin).mp hsome
        exact ⟨hbelow this, this⟩
      · exact ⟨hlt, hsome⟩
    · rintro ⟨hlt, hsome⟩
      by_cases hin : i < arr.elements.length
      · exact Or.inl ⟨by omega, (hdense i hin).mpr hsome⟩
      · exact Or.inr ⟨⟨Nat.not_lt.mp hin, hsome⟩, hlt⟩

end ArrayObject

end B2Compiler.Ts
