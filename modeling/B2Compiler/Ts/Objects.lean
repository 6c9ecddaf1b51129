import B2Compiler.Ts.ArrayStorage

/-!
# Objects

An object keeps its named properties in slots that its shape describes.  Transitions
are memoised by shape, key and attributes, so a shape is known by the links on its path
from the root, and the object here is that path with the slot of each link.  A deleted
property leaves a hole in its slot; the link stays.
-/

namespace B2Compiler.Ts

open List

/-! ## Text and values -/

/-- A string is its UTF-16 code units. -/
abbrev Text : Type := List UInt16

def utf16 (s : String) : Text := s.toList.map fun c => UInt16.ofNat c.toNat

def utf8Bytes (c : Nat) : List UInt8 :=
  if c < 0x80 then [.ofNat c]
  else if c < 0x800 then [.ofNat (0xC0 + c / 0x40), .ofNat (0x80 + c % 0x40)]
  else if c < 0x10000 then
    [.ofNat (0xE0 + c / 0x1000), .ofNat (0x80 + c / 0x40 % 0x40), .ofNat (0x80 + c % 0x40)]
  else
    [.ofNat (0xF0 + c / 0x40000), .ofNat (0x80 + c / 0x1000 % 0x40),
      .ofNat (0x80 + c / 0x40 % 0x40), .ofNat (0x80 + c % 0x40)]

/-- A lone surrogate is encoded as it stands. -/
def utf16ToUtf8 : Text → List UInt8
  | [] => []
  | [c] => utf8Bytes c.toNat
  | c :: lo :: rest =>
    if 0xD800 ≤ c ∧ c ≤ 0xDBFF ∧ 0xDC00 ≤ lo ∧ lo ≤ 0xDFFF then
      utf8Bytes (0x10000 + (c.toNat - 0xD800) * 0x400 + (lo.toNat - 0xDC00)) ++ utf16ToUtf8 rest
    else utf8Bytes c.toNat ++ utf16ToUtf8 (lo :: rest)

/-- The text of an error message from its bytes; a byte is a signed character. -/
def widen (bytes : List UInt8) : Text :=
  bytes.map fun b => if b < 0x80 then b.toUInt16 else 0xFF00 + b.toUInt16

abbrev ObjectId : Type := Nat

structure Symbol where
  uniqueId : Nat
  desc : Text
  deriving DecidableEq

/-- A closure and the object that carries its properties. -/
structure Closure where
  id : Nat
  asObject : ObjectId
  deriving DecidableEq

/-- A double by its value, the negative zero apart from the positive one. -/
inductive Double where
  | nan
  | infinity (negative : Bool)
  | negativeZero
  | finite (q : ℚ)
  deriving DecidableEq

/-- What `length` sees of a double. -/
def Double.toJsNumber : Double → JsNumber
  | .nan => .nan
  | .infinity negative => .infinity negative
  | .negativeZero => .finite 0
  | .finite q => .finite q

/-- A value.  The target and the handler of a proxy never change, so they are part of it;
two proxies of one target differ in their `id`. -/
inductive Value where
  | undefined
  | null
  | boolean (b : Bool)
  | smi (i : Int)
  | heapNumber (d : Double)
  | string (text : Text)
  | bigint (i : Int)
  | symbol (s : Symbol)
  | context (id : Nat)
  | object (id : ObjectId)
  | closure (c : Closure)
  | proxy (id : Nat) (target : Value) (handler : ObjectId)
  deriving DecidableEq

namespace Value

def isNumber : Value → Bool
  | .smi _ | .heapNumber _ => true
  | _ => false

instance : ElementValue Value where
  isSmi v := match v with
    | .smi _ => true
    | _ => false
  isNumber := isNumber
  isNumber_of_isSmi v h := by cases v <;> first | rfl | cases h

def isObjectLike : Value → Bool
  | .object _ | .closure _ => true
  | _ => false

def isProxy : Value → Bool
  | .proxy .. => true
  | _ => false

def asDouble : Value → Double
  | .smi i => .finite i
  | .heapNumber d => d
  | _ => .nan

def kindName : Value → String
  | .undefined => "undefined"
  | .boolean _ => "boolean"
  | .smi _ | .heapNumber _ => "number"
  | .string _ => "string"
  | .bigint _ => "bigint"
  | .symbol _ => "symbol"
  | .closure _ => "function"
  | _ => "object"

/-- Numbers are the same by their double, everything else by kind and content. -/
def sameValue (a b : Value) : Bool :=
  if a.isNumber && b.isNumber then a.asDouble = b.asDouble else a = b

theorem sameValue_refl (a : Value) : a.sameValue a = true := by
  simp [sameValue]

theorem sameValue_trans {a b c : Value} (hab : a.sameValue b = true)
    (hbc : b.sameValue c = true) : a.sameValue c = true := by
  unfold sameValue at *
  cases ha : a.isNumber <;> cases hb : b.isNumber <;> cases hc : c.isNumber <;> grind

end Value

def objectOfValue : Value → Option ObjectId
  | .object id => some id
  | .closure c => some c.asObject
  | _ => none

/-! ## Keys and attributes -/

/-- An interned property key. -/
inductive PropertyKey where
  | text (t : Text)
  | symbol (s : Symbol)
  deriving DecidableEq

/-- The key of a name of the source. -/
def nameKey (s : String) : PropertyKey := .text (utf16 s)

def lengthKey : PropertyKey := nameKey "length"

namespace PropertyKey

def keyText : PropertyKey → Text
  | .text t => t
  | .symbol s => s.desc

def keyToValue : PropertyKey → Value
  | .text t => .string t
  | .symbol s => .symbol s

end PropertyKey

/-- The digits of an index, with the overflow check of each round. -/
def indexDigits : Nat → Text → Option Nat
  | v, [] => some v
  | v, c :: cs =>
    if c < 48 ∨ 57 < c then none
    else
      let v := v * 10 + (c.toNat - 48)
      if 0xFFFFFFFF < v then none else indexDigits v cs

def arrayIndexFromKey : PropertyKey → Option ArrayIndex
  | .symbol _ => none
  | .text t =>
    if t.length = 0 ∨ 10 < t.length then none
    else if 1 < t.length ∧ t.head? = some 48 then none
    else
      match indexDigits 0 t with
      | some v => if h : v < 2 ^ 32 - 1 then some ⟨v, h⟩ else none
      | none => none

def internIndexKey (idx : Nat) : PropertyKey := nameKey (toString idx)

structure PropertyAttrs where
  writable : Bool := false
  enumerable : Bool := false
  configurable : Bool := false
  isAccessor : Bool := false
  deriving DecidableEq

def kDefaultDataAttrs : PropertyAttrs :=
  { writable := true, enumerable := true, configurable := true }

/-! ## Slots and objects -/

/-- What a slot holds. -/
inductive Slot where
  | hole
  | data (v : Value)
  | accessor (getter setter : Option Closure)
  deriving DecidableEq

/-- A link of a shape, with the slot of one object. -/
structure Link where
  key : PropertyKey
  attrs : PropertyAttrs
  slot : Slot
  deriving DecidableEq

/-- A shape, the newest link first; no link is the shape of a fresh object. -/
abbrev Shape : Type := List (PropertyKey × PropertyAttrs)

structure Object where
  links : List Link := []
  proto : Value := .null
  extensible : Bool := true
  array : Option (ArrayObject Value) := none
  deriving DecidableEq

def shapeOf (links : List Link) : Shape := links.map fun l => (l.key, l.attrs)

def Object.shape (o : Object) : Shape := shapeOf o.links

def findOwnSlot : List Link → PropertyKey → Option Nat
  | [], _ => none
  | l :: rest, key => if l.key = key then some rest.length else findOwnSlot rest key

/-- The link of a slot number. -/
def slotAt : List Link → Nat → Option Link
  | [], _ => none
  | l :: rest, i => if i = rest.length then some l else slotAt rest i

def writeSlot : List Link → Nat → Slot → List Link
  | [], _, _ => []
  | l :: rest, i, slot =>
    if i = rest.length then { l with slot := slot } :: rest else l :: writeSlot rest i slot

/-- An own property as a lookup classifies it.  The attributes decide; where the slot
does not hold what they promise, the lookup reads it as what it is not. -/
inductive Own where
  | data (v : Value)
  | accessor (getter setter : Option Closure)
  | confused
  deriving DecidableEq

def Link.own (l : Link) : Option Own :=
  match l.slot, l.attrs.isAccessor with
  | .hole, _ => none
  | .data v, false => some (.data v)
  | .accessor getter setter, true => some (.accessor getter setter)
  | _, _ => some .confused

/-- The newest link for the key, live or not. -/
def ownLink (links : List Link) (key : PropertyKey) : Option Link :=
  (findOwnSlot links key).bind (slotAt links)

def lookupOwnProperty (links : List Link) (key : PropertyKey) : Option Own :=
  (ownLink links key).bind Link.own

/-- Slot number and attributes of an own, live data property. -/
def ownDataSlotAttrs (links : List Link) (key : PropertyKey) : Option (Nat × PropertyAttrs) :=
  match findOwnSlot links key with
  | none => none
  | some i =>
    match slotAt links i with
    | none => none
    | some l => if l.slot = .hole ∨ l.attrs.isAccessor then none else some (i, l.attrs)

/-! ### Links and slots -/

section Links

variable {links : List Link} {key : PropertyKey} {i : Nat}

theorem findOwnSlot_lt (h : findOwnSlot links key = some i) : i < links.length := by
  induction links with
  | nil => cases h
  | cons l rest ih =>
    unfold findOwnSlot at h
    split at h
    · simp_all
    · exact Nat.lt_succ_of_lt (ih h)

theorem slotAt_cons_of_lt (l : Link) (h : i < links.length) :
    slotAt (l :: links) i = slotAt links i := by
  rw [slotAt, if_neg (Nat.ne_of_lt h)]

@[simp] theorem ownLink_nil : ownLink [] key = none := rfl

theorem ownLink_cons (l : Link) :
    ownLink (l :: links) key = if l.key = key then some l else ownLink links key := by
  unfold ownLink
  by_cases hkey : l.key = key
  · simp [findOwnSlot, hkey, slotAt]
  · simp only [findOwnSlot, hkey, if_false]
    cases hfind : findOwnSlot links key with
    | none => rfl
    | some i => exact slotAt_cons_of_lt l (findOwnSlot_lt hfind)

theorem ownLink_key {l : Link} (h : ownLink links key = some l) : l.key = key := by
  induction links with
  | nil => cases h
  | cons head rest ih =>
    rw [ownLink_cons] at h
    split at h
    · simp_all
    · exact ih h

theorem ownLink_mem {l : Link} (h : ownLink links key = some l) : l ∈ links := by
  induction links with
  | nil => cases h
  | cons head rest ih =>
    rw [ownLink_cons] at h
    split at h
    · simp_all
    · exact mem_cons_of_mem _ (ih h)

theorem slotAt_findOwnSlot (h : findOwnSlot links key = some i) :
    slotAt links i = ownLink links key := by
  simp [ownLink, h]

theorem isSome_ownLink (h : findOwnSlot links key = some i) : (ownLink links key).isSome := by
  induction links with
  | nil => cases h
  | cons l rest ih =>
    rw [ownLink_cons]
    unfold findOwnSlot at h
    split at h
    · simp_all
    · simp_all

theorem ownLink_of_findOwnSlot_none (h : findOwnSlot links key = none) :
    ownLink links key = none := by
  simp [ownLink, h]

theorem findOwnSlot_of_shapeOf {others : List Link} (h : shapeOf links = shapeOf others) :
    findOwnSlot links key = findOwnSlot others key := by
  induction links generalizing others with
  | nil =>
    cases others with
    | nil => rfl
    | cons l rest => cases h
  | cons l rest ih =>
    cases others with
    | nil => cases h
    | cons l' rest' =>
      simp only [shapeOf, map_cons, cons.injEq, Prod.mk.injEq] at h
      have hlen : rest.length = rest'.length := by
        simpa using congrArg length h.2
      simp only [findOwnSlot, h.1.1, hlen, ih h.2]

theorem slotAt_of_shapeOf {others : List Link} (h : shapeOf links = shapeOf others) :
    (slotAt links i).map (fun l => (l.key, l.attrs)) =
      (slotAt others i).map fun l => (l.key, l.attrs) := by
  induction links generalizing others with
  | nil =>
    cases others with
    | nil => rfl
    | cons l rest => cases h
  | cons l rest ih =>
    cases others with
    | nil => cases h
    | cons l' rest' =>
      simp only [shapeOf, map_cons, cons.injEq, Prod.mk.injEq] at h
      have hlen : rest.length = rest'.length := by
        simpa using congrArg length h.2
      unfold slotAt
      by_cases hi : i = rest.length
      · simp [hi, hlen, h.1]
      · simp only [hi, if_false, hlen ▸ hi]
        exact ih h.2

@[simp] theorem shapeOf_writeSlot (slot : Slot) :
    shapeOf (writeSlot links i slot) = shapeOf links := by
  induction links with
  | nil => rfl
  | cons l rest ih =>
    unfold writeSlot
    split
    · rfl
    · exact congrArg (cons (l.key, l.attrs)) ih

@[simp] theorem length_writeSlot (slot : Slot) :
    (writeSlot links i slot).length = links.length := by
  have hshape : shapeOf (writeSlot links i slot) = shapeOf links := shapeOf_writeSlot slot
  simpa [shapeOf] using congrArg length hshape

theorem slotAt_writeSlot (slot : Slot) (j : Nat) : slotAt (writeSlot links i slot) j =
      if j = i then (slotAt links i).map fun l => { l with slot := slot }
      else slotAt links j := by
  induction links with
  | nil => simp [writeSlot, slotAt]
  | cons l rest ih =>
    unfold writeSlot
    by_cases hi : i = rest.length
    · simp only [hi, if_true, slotAt]
      by_cases hj : j = rest.length <;> simp [hj]
    · simp only [hi, if_false, slotAt, length_writeSlot, ih]
      by_cases hj : j = rest.length
      · have hne : ¬ rest.length = i := fun h => hi h.symm
        simp [hj, hne]
      · simp [hj]

theorem ownLink_writeSlot (h : findOwnSlot links key = some i) (slot : Slot) (other : PropertyKey) :
    ownLink (writeSlot links i slot) other =
      if other = key then (ownLink links key).map fun l => { l with slot := slot }
      else ownLink links other := by
  have hfind : findOwnSlot (writeSlot links i slot) other = findOwnSlot links other :=
    findOwnSlot_of_shapeOf (shapeOf_writeSlot slot)
  by_cases hkey : other = key
  · subst hkey
    simp [ownLink, hfind, h, slotAt_writeSlot]
  rw [if_neg hkey]
  cases hother : findOwnSlot links other with
  | none =>
    rw [ownLink_of_findOwnSlot_none hother, ownLink_of_findOwnSlot_none (hfind.trans hother)]
  | some j =>
    have hji : j ≠ i := by
      intro hji
      subst hji
      have hsome := isSome_ownLink h
      obtain ⟨l, hl⟩ := Option.isSome_iff_exists.mp hsome
      have hl' : ownLink links other = some l := by
        rw [← slotAt_findOwnSlot hother, slotAt_findOwnSlot h, hl]
      exact hkey ((ownLink_key hl').symm.trans (ownLink_key hl))
    rw [← slotAt_findOwnSlot hother, ← slotAt_findOwnSlot (hfind.trans hother),
      slotAt_writeSlot, if_neg hji]

theorem mem_writeSlot {slot : Slot} {l : Link} (h : l ∈ writeSlot links i slot) :
    l ∈ links ∨ ∃ l' ∈ links, slotAt links i = some l' ∧ l = { l' with slot := slot } := by
  induction links with
  | nil => cases h
  | cons head rest ih =>
    unfold writeSlot at h
    by_cases hi : i = rest.length
    · rw [if_pos hi] at h
      rcases mem_cons.mp h with hl | hl
      · exact Or.inr ⟨head, mem_cons_self, by simp [slotAt, hi], hl⟩
      · exact Or.inl (mem_cons_of_mem _ hl)
    · rw [if_neg hi] at h
      rcases mem_cons.mp h with hl | hl
      · exact Or.inl (hl ▸ mem_cons_self)
      · rcases ih hl with hl | ⟨l', hl', hat, rfl⟩
        · exact Or.inl (mem_cons_of_mem _ hl)
        · exact Or.inr ⟨l', mem_cons_of_mem _ hl', by simpa [slotAt, hi] using hat, rfl⟩

end Links

/-! ## The isolate -/

/-- The heap of an isolate.  The text of a number is the runtime's business. -/
structure Isolate where
  objects : ObjectId → Object
  allocated : Nat
  global : ObjectId
  objectPrototype : ObjectId
  functionPrototype : ObjectId
  arrayPrototype : ObjectId
  accessorEpoch : Nat
  doubleToString : Double → List UInt8

namespace Isolate

variable (s : Isolate)

def update (id : ObjectId) (o : Object) : Isolate :=
  { s with objects := Function.update s.objects id o }

def setLinks (id : ObjectId) (links : List Link) : Isolate :=
  s.update id { s.objects id with links := links }

def protoOfObject (id : ObjectId) : Option ObjectId := objectOfValue (s.objects id).proto

/-- The objects of the prototype chain, cut off after so many. -/
def chainUpTo : Nat → ObjectId → List ObjectId
  | 0, _ => []
  | n + 1, id =>
    id :: match s.protoOfObject id with
      | some p => chainUpTo n p
      | none => []

/-- The prototype chain of an object, itself first.  No chain is longer than the number
of objects. -/
def chain (start : ObjectId) : List ObjectId := s.chainUpTo s.allocated start

/-- Lookup of a named property along the chain. -/
def lookupProperty (start : ObjectId) (key : PropertyKey) : Option (ObjectId × Own) :=
  (s.chain start).findSome? fun id =>
    (lookupOwnProperty (s.objects id).links key).map fun own => (id, own)

end Isolate

end B2Compiler.Ts
