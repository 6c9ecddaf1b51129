import B2Compiler.Ts.CacheTransparency

/-!
# Element access

`GetElement` and `SetElement` under any key.  A small integer on an object is walked for
as an index, and an array answers from its dense slots before that; every other key goes
through `ToPropertyKey`.
-/

namespace B2Compiler.Ts

open Lib List Isolate

/-! ## The text of an index -/

theorem toNat_digitUnit {c : Char} (h : c.isDigit = true) :
    (UInt16.ofNat c.toNat).toNat = c.toNat ∧ 48 ≤ c.toNat ∧ c.toNat ≤ 57 := by
  have hc : 48 ≤ c.toNat ∧ c.toNat ≤ 57 := by
    simpa [Char.isDigit, UInt32.le_iff_toNat_le] using h
  refine ⟨?_, hc⟩
  simp
  omega

/-- Digits are read as the number they spell. -/
theorem indexDigits_map {cs : List Char} {v : Nat} (hdigits : ∀ c ∈ cs, c.isDigit = true)
    (hle : Nat.ofDigitChars 10 cs v ≤ 0xFFFFFFFF) :
    indexDigits v (cs.map fun c => UInt16.ofNat c.toNat) = some (Nat.ofDigitChars 10 cs v) ∧
      v ≤ Nat.ofDigitChars 10 cs v ∧ Nat.ofDigitChars 10 cs v < (v + 1) * 10 ^ cs.length := by
  induction cs generalizing v with
  | nil => simp [indexDigits]
  | cons c cs ih =>
    obtain ⟨hunit, hc⟩ := toNat_digitUnit (hdigits c mem_cons_self)
    rw [Nat.ofDigitChars_cons] at hle ⊢
    obtain ⟨hread, hge, hlt⟩ := ih (fun d hd => hdigits d (mem_cons_of_mem c hd)) hle
    rw [show '0'.toNat = 48 from rfl, Nat.mul_comm] at hle hread hge hlt ⊢
    have hdigit : ¬ (UInt16.ofNat c.toNat < 48 ∨ 57 < UInt16.ofNat c.toNat) := by
      simp only [UInt16.lt_iff_toNat_lt, hunit]
      simp
      omega
    refine ⟨?_, by omega, ?_⟩
    · simp only [map_cons, indexDigits, if_neg hdigit, hunit]
      rw [if_neg (by omega), hread]
    · refine Nat.lt_of_lt_of_le hlt ?_
      rw [length_cons, Nat.pow_succ', ← Nat.mul_assoc]
      exact Nat.mul_le_mul_right _ (by omega)

theorem arrayIndexFromKey_internIndexKey (idx : ArrayIndex) :
    arrayIndexFromKey (internIndexKey idx) = some idx := by
  obtain ⟨n, hn⟩ := idx
  have hvalue := Nat.ofDigitChars_ten_toDigits (n := n)
  have hdigits : ∀ c ∈ Nat.toDigits 10 n, c.isDigit = true := fun c hc =>
    Nat.isDigit_of_mem_toDigits (by decide) (by decide) hc
  have hshort (k : Nat) (hk : 0 < k) : (Nat.toDigits 10 n).length ≤ k ↔ n < 10 ^ k :=
    Nat.length_toDigits_le_iff (by decide) hk
  have hten := (hshort 10 (by decide)).mpr (by omega)
  have hpos : 0 < (Nat.toDigits 10 n).length := Nat.length_toDigits_pos
  have htext : utf16 (toString n) = (Nat.toDigits 10 n).map fun c => UInt16.ofNat c.toNat := by
    simp [utf16]
  simp only [internIndexKey, nameKey, htext, arrayIndexFromKey]
  generalize Nat.toDigits 10 n = cs at *
  have hread := (indexDigits_map (v := 0) hdigits (by omega)).1
  rw [if_neg (by rw [length_map]; omega), if_neg ?_, hread, hvalue]
  · simpa using hn
  · -- With a zero in front the number would need fewer digits.
    rintro ⟨hlong, hzero⟩
    cases cs with
    | nil => cases hzero
    | cons c cs =>
      obtain ⟨hunit, -⟩ := toNat_digitUnit (hdigits c mem_cons_self)
      have hcode : c.toNat = 48 := hunit.symm.trans (congrArg UInt16.toNat (Option.some.inj hzero))
      rw [Nat.ofDigitChars_cons, hcode] at hvalue
      obtain ⟨-, -, hlt⟩ := indexDigits_map (v := 0)
        (fun d hd => hdigits d (mem_cons_of_mem c hd)) (hvalue.trans_le (by omega))
      have hfits := (hshort cs.length (by simpa using hlong)).mpr (by simpa [← hvalue] using hlt)
      simp at hfits

/-! ## Keys -/

/-- The methods of an object, one after the other; an answer that is an object itself
does not count.  An object takes a proxy for an answer, a proxy does not. -/
def firstPrimitive (v : Value) : List String → Proc Value
  | [] => typeError (bytes "Cannot convert object to primitive value")
  | method :: rest => do
    match ← getProperty v (nameKey method) with
    | .closure c => do
      let r ← callClosure c v []
      if r.isObjectLike || (v.isProxy && r.isProxy) then firstPrimitive v rest else pure r
    | _ => firstPrimitive v rest

def toPrimitive (v : Value) (hintString : Bool) : Proc Value :=
  if !v.isObjectLike && !v.isProxy then pure v
  else firstPrimitive v (if hintString then ["toString", "valueOf"] else ["valueOf", "toString"])

/-- `toStringValue` of a primitive.  The double of a small integer is below `2 ^ 53`, where
its digits are written as they are. -/
def primitiveText : Value → Proc Text
  | .undefined => pure (utf16 "undefined")
  | .null => pure (utf16 "null")
  | .boolean b => pure (utf16 (toString b))
  | .smi i => pure (utf16 (toString i))
  | .heapNumber d => read fun s => widen (s.doubleToString d)
  | .string t => pure t
  | .bigint i => pure (utf16 (toString i))
  | .symbol s => pure (utf16 "Symbol(" ++ s.desc ++ utf16 ")")
  | _ => .stuck

/-- `toPropertyKey` of what is no object: a text, a symbol, or the text of the rest. -/
def primitiveKey : Value → Proc PropertyKey
  | .symbol s => pure (.symbol s)
  | .proxy id target handler => do
    let prim ← toPrimitive (.proxy id target handler) true
    .text <$> primitiveText prim
  | v => .text <$> primitiveText v

def toPropertyKey (v : Value) : Proc PropertyKey := do
  if v.isObjectLike then
    let prim ← toPrimitive v true
    primitiveKey prim
  else primitiveKey v

/-! ## The opcodes -/

/-- The index of a small integer; it is below `2 ^ 31`. -/
def smiIndex : Value → Option ArrayIndex
  | .smi i => if h : 0 ≤ i ∧ i.toNat < 2 ^ 32 - 1 then some ⟨i.toNat, h.2⟩ else none
  | _ => none

/-- `getElementValue` under any key. -/
def getElement (recv key : Value) : Proc Value :=
  match smiIndex key, recv.isObjectLike with
  | some idx, true => getElementValue recv idx
  | _, _ => do getProperty recv (← toPropertyKey key)

/-- `setElementValue` under any key. -/
def setElement (recv key v : Value) : Proc Bool :=
  match smiIndex key, recv.isObjectLike with
  | some idx, true => setElementValue recv idx v
  | _, _ => do setProperty recv (← toPropertyKey key) v

/-- The dense slot of an array under a small integer, with what it holds. -/
def denseSlot (s : Isolate) (recv key : Value) : Option (ObjectId × ArrayIndex × Value) :=
  match recv, smiIndex key with
  | .object obj, some idx =>
    (s.objects obj).array.bind fun arr =>
      (arr.elements[idx.1]?).join.map fun held => (obj, idx, held)
  | _, _ => none

def L_GetElement (recv key : Value) (s : Isolate) : Halt Value × Isolate :=
  match denseSlot s recv key with
  | some (_, _, held) => (.ret held, s)
  | none => (getElement recv key).exec s

/-- The store over a slot that is no hole. -/
def ArrayObject.storeDense (arr : ArrayObject Value) (idx : Nat) (v : Value) :
    ArrayObject Value :=
  let arr := arr.widenElementsFor v
  { arr with elements := arr.elements.set idx (some v), length := ArrayObject.bump arr.length idx }

def L_SetElement (recv key v : Value) (s : Isolate) : Halt Bool × Isolate :=
  match denseSlot s recv key with
  | some (obj, idx, _) =>
    (.ret true, s.setArray obj (((s.objects obj).array.getD {}).storeDense idx v))
  | none => (setElement recv key v).exec s

/-- What the opcodes stand for. -/
def propertyGet (recv key : Value) : Proc Value := do getProperty recv (← toPropertyKey key)

def propertySet (recv key v : Value) : Proc Bool := do setProperty recv (← toPropertyKey key) v

/-- A small integer names an own data property of the receiver that cannot be written. -/
def Isolate.readOnlyIndex (s : Isolate) (recv key : Value) : Bool :=
  match objectOfValue recv, smiIndex key with
  | some obj, some idx => (s.objects obj).array.isNone && s.isReadOnly obj (internIndexKey idx)
  | _, _ => false

/-! ## A small integer is the key of its text -/

theorem toPropertyKey_smi {key : Value} {idx : ArrayIndex} (h : smiIndex key = some idx) :
    toPropertyKey key = .ret (internIndexKey idx) := by
  cases key with
  | smi i =>
    simp only [smiIndex] at h
    split at h
    · rename_i hi
      cases h
      obtain ⟨n, rfl⟩ := Int.eq_ofNat_of_zero_le hi.1
      rfl
    · cases h
  | _ => cases h

theorem propertyGet_smi {recv key : Value} {obj : ObjectId} {idx : ArrayIndex}
    (hrecv : objectOfValue recv = some obj) (h : smiIndex key = some idx) :
    propertyGet recv key = getObject obj recv (internIndexKey idx) := by
  rw [propertyGet, toPropertyKey_smi h]
  exact getProperty_object hrecv

theorem propertySet_smi {recv key : Value} {obj : ObjectId} {idx : ArrayIndex}
    (hrecv : objectOfValue recv = some obj) (h : smiIndex key = some idx) (v : Value) :
    propertySet recv key v = setObject obj recv (internIndexKey idx) v := by
  rw [propertySet, toPropertyKey_smi h]
  exact setProperty_object hrecv v

theorem isObjectLike_of_object {recv : Value} {obj : ObjectId}
    (h : objectOfValue recv = some obj) : recv.isObjectLike = true := by
  cases recv <;> first | rfl | cases h

/-- Off the walk of a small integer the opcodes are what they stand for. -/
theorem walk_cases (recv key : Value) : (∃ obj idx, objectOfValue recv = some obj ∧
      smiIndex key = some idx) ∨
    getElement recv key = propertyGet recv key ∧
      ∀ v, setElement recv key v = propertySet recv key v := by
  cases hidx : smiIndex key with
  | none =>
    right
    simp [getElement, setElement, hidx, propertyGet, propertySet]
  | some idx =>
    cases hobj : objectOfValue recv with
    | some obj => exact .inl ⟨obj, idx, rfl, rfl⟩
    | none =>
      have hlike : recv.isObjectLike = false := by cases recv <;> first | rfl | cases hobj
      right
      simp [getElement, setElement, hidx, hlike, propertyGet, propertySet]

section Heap

variable {s : Isolate} {recv key : Value} {obj : ObjectId} {idx : ArrayIndex}

/-! ## Reads -/

/-- An array has no link under an index, so the named slots it is asked for after its
elements answer nothing. -/
theorem fetchElement_eq (hs : s.Sound) (id : ObjectId) (idx : ArrayIndex) :
    (s.objects id).fetchElement idx = (s.objects id).fetch (internIndexKey idx) := by
  have hkey := arrayIndexFromKey_internIndexKey idx
  unfold Object.fetchElement Object.fetch
  cases harray : (s.objects id).array with
  | none => rfl
  | some arr =>
    simp only [Option.bind_some, hkey]
    cases helem : arr.ownElementValue idx with
    | some v => rfl
    | none =>
      cases hlink : ownLink (s.objects id).links (internIndexKey idx) with
      | none => simp [lookupOwnProperty, hlink]
      | some l =>
        rcases plain_of_link hs hlink with hnone | hplain
        · cases harray.symm.trans hnone
        · cases hkey.symm.trans hplain.2

theorem exec_getElement (hs : s.Sound) (hrecv : objectOfValue recv = some obj)
    (h : smiIndex key = some idx) :
    (getElement recv key).exec s = (propertyGet recv key).exec s := by
  have hchain : s.getElementAlongChain obj idx = s.getAlongChain obj (internIndexKey idx) := by
    simp only [getElementAlongChain, getAlongChain, fetchElement_eq hs]
  rw [propertyGet_smi hrecv h]
  simp [getElement, h, isObjectLike_of_object hrecv, getElementValue, getObject, hrecv, read,
    perform, HeapOp.run, hchain]

theorem denseSlot_eq_some {held : Value} (h : denseSlot s recv key = some (obj, idx, held)) :
    recv = .object obj ∧ smiIndex key = some idx ∧
      ∃ arr, (s.objects obj).array = some arr ∧ arr.elements[idx.1]? = some (some held) := by
  unfold denseSlot at h
  split at h
  · rename_i hidx
    obtain ⟨arr, harr, hmap⟩ := Option.bind_eq_some_iff.mp h
    obtain ⟨w, hheld, heq⟩ := Option.map_eq_some_iff.mp hmap
    cases heq
    exact ⟨rfl, hidx, arr, harr, Option.join_eq_some_iff.mp hheld⟩
  · cases h

theorem L_GetElement_eq (hs : s.Sound) (recv key : Value) :
    L_GetElement recv key s = (propertyGet recv key).exec s := by
  have hslow : (getElement recv key).exec s = (propertyGet recv key).exec s := by
    rcases walk_cases recv key with ⟨obj, idx, hrecv, hidx⟩ | ⟨h, -⟩
    · exact exec_getElement hs hrecv hidx
    · rw [h]
  unfold L_GetElement
  split
  · rename_i obj idx held hdense
    obtain ⟨rfl, hidx, arr, harr, helem⟩ := denseSlot_eq_some hdense
    obtain ⟨rest, hchain⟩ := chain_cons hs.allocated_pos obj
    have hown : arr.ownElementValue idx = some held := by
      rw [ArrayObject.ownElementValue_eq, helem]
      rfl
    rw [← hslow]
    simp [getElement, hidx, Value.isObjectLike, getElementValue, objectOfValue, read, perform,
      HeapOp.run, getElementAlongChain, hchain, Object.fetchElement, harr, hown, fetched]
  · exact hslow

/-! ## Stores -/

theorem exec_setElement_array {arr : ArrayObject Value} (hrecv : objectOfValue recv = some obj)
    (h : smiIndex key = some idx) (harr : (s.objects obj).array = some arr) (v : Value) :
    (setElement recv key v).exec s = (.ret true, s.setArray obj (arr.setArrayElement idx v)) ∧
      (propertySet recv key v).exec s =
        (.ret true, s.setArray obj (arr.setArrayElement idx v)) := by
  have hkey := arrayIndexFromKey_internIndexKey idx
  have hlength : internIndexKey idx ≠ lengthKey := by
    intro heq
    rw [heq] at hkey
    cases hkey
  rw [propertySet_smi hrecv h]
  constructor
  · simp [setElement, h, isObjectLike_of_object hrecv, setElementValue, hrecv, read, perform,
      HeapOp.run, arrayStep, harr, ArrayObject.step]
  · simp [setObject, read, perform, HeapOp.run, arrayStep, harr, hlength, hkey, ArrayObject.step]

theorem exec_setElement_object (hrecv : objectOfValue recv = some obj)
    (h : smiIndex key = some idx) (harr : (s.objects obj).array = none) (v : Value) :
    (setElement recv key v).exec s =
      (stored recv (internIndexKey idx) v (s.setElementAlongChain obj (internIndexKey idx) v).1).exec
        (s.setElementAlongChain obj (internIndexKey idx) v).2 := by
  simp [setElement, h, isObjectLike_of_object hrecv, setElementValue, hrecv, read, perform,
    HeapOp.run, harr]

theorem setElementAlongChain_eq {k : PropertyKey} (h : s.isReadOnly obj k = false) (v : Value) :
    s.setElementAlongChain obj k v = s.setAlongChain obj k v := by
  simp only [setElementAlongChain, setAlongChain, storeAlongChain, h, Bool.and_false]

/-- A read-only property is written by the one walk and refused by the other. -/
theorem store_readOnly (hs : s.Sound) {k : PropertyKey} (h : s.isReadOnly obj k = true)
    (v : Value) : (s.setElementAlongChain obj k v).1 = .wrote ∧
      (s.setAlongChain obj k v).1 = .readOnly := by
  have hown : ∃ w, lookupOwnProperty (s.objects obj).links k = some (.data w) := by
    unfold isReadOnly at h
    split at h
    · cases h
    · rename_i hattrs
      obtain ⟨l, -, hlink, rfl, hlive, hacc⟩ := ownDataSlotAttrs_eq_some hattrs
      have htyped := hs.typed obj l (ownLink_mem hlink)
      unfold Link.Typed at htyped
      simp only [lookupOwnProperty, hlink, Option.bind_some, own_eq_data_iff]
      cases hslot : l.slot with
      | hole => exact absurd hslot hlive
      | data w => exact ⟨w, rfl, hacc⟩
      | accessor getter setter =>
        rw [hslot] at htyped
        cases hacc.symm.trans htyped
  obtain ⟨w, hown⟩ := hown
  have hlook := lookupProperty_start hs.allocated_pos hown
  simp [setElementAlongChain, setAlongChain, storeAlongChain, hlook, h]

theorem L_SetElement_eq (hs : s.Sound) (h : s.readOnlyIndex recv key = false) (v : Value) :
    L_SetElement recv key v s = (propertySet recv key v).exec s := by
  unfold L_SetElement
  split
  · rename_i obj idx held hdense
    obtain ⟨rfl, hidx, arr, harr, helem⟩ := denseSlot_eq_some hdense
    rw [(exec_setElement_array rfl hidx harr v).2]
    have hlt : idx.1 < arr.elements.length := (List.getElem?_eq_some_iff.mp helem).1
    rw [harr, ArrayObject.setArrayElement, if_pos hlt]
    rfl
  · rcases walk_cases recv key with ⟨obj, idx, hrecv, hidx⟩ | ⟨-, hset⟩
    · cases harr : (s.objects obj).array with
      | some arr =>
        obtain ⟨hfast, hslow⟩ := exec_setElement_array hrecv hidx harr v
        rw [hfast, hslow]
      | none =>
        have hread : s.isReadOnly obj (internIndexKey idx) = false := by
          simpa [readOnlyIndex, hrecv, hidx, harr] using h
        rw [exec_setElement_object hrecv hidx harr, propertySet_smi hrecv hidx,
          exec_setObject_plain (.inl harr), setElementAlongChain_eq hread]
    · rw [hset]

theorem L_SetElement_readOnly (hs : s.Sound) (h : s.readOnlyIndex recv key = true) (v : Value) :
    (L_SetElement recv key v s).1 = .ret true ∧
      ∃ e, ((propertySet recv key v).exec s).1 = .throw e := by
  unfold readOnlyIndex at h
  split at h
  · rename_i obj idx hrecv hidx
    rw [Bool.and_eq_true, Option.isNone_iff_eq_none] at h
    obtain ⟨harr, hread⟩ := h
    obtain ⟨hwrote, hrefused⟩ := store_readOnly hs hread v
    constructor
    · unfold L_SetElement
      split
      · rfl
      · rw [exec_setElement_object hrecv hidx harr, hwrote]
        rfl
    · rw [propertySet_smi hrecv hidx, exec_setObject_plain (.inl harr), hrefused]
      exact ⟨_, rfl⟩
  · cases h

end Heap

/-- The same object after `Object.defineProperty(o, "0", {value: 7})`. -/
def readOnlyPoint : Isolate :=
  (HeapOp.run (.defineDescriptor 1 (internIndexKey 0) { hasValue := true, value := .smi 7 })
    pointIsolate).2

end B2Compiler.Ts
