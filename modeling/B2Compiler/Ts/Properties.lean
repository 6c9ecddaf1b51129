import B2Compiler.Lib.Procedure
import B2Compiler.Ts.Objects

/-!
# Property operations

What the interpreter does to its heap in one go: reads along the prototype chain, stores,
deletions, definitions, allocation.  Code of the program can run only between two of
them, as a getter, a setter or a trap.
-/

namespace B2Compiler.Ts

open Lib

/-! ## Reads -/

/-- What a read finds: a value, or the getter that has it. -/
inductive Fetch where
  | value (v : Value)
  | getter (c : Closure)
  | confused
  deriving DecidableEq

def Own.fetch : Own → Fetch
  | .data v => .value v
  | .accessor none _ => .value .undefined
  | .accessor (some c) _ => .getter c
  | .confused => .confused

def lengthValue (length : Nat) : Value :=
  if length ≤ 2 ^ 31 - 1 then .smi length else .heapNumber (.finite length)

def arrayLengthValue (arr : ArrayObject Value) : Value := lengthValue arr.length

namespace Object

/-- The node's answer to a read of the key; an array answers index keys from its elements
alone. -/
def fetch (o : Object) (key : PropertyKey) : Option Fetch :=
  match o.array with
  | none => (lookupOwnProperty o.links key).map Own.fetch
  | some arr =>
    match arrayIndexFromKey key with
    | some idx => (arr.ownElementValue idx).map .value
    | none =>
      if key = lengthKey then some (.value (arrayLengthValue arr))
      else (lookupOwnProperty o.links key).map Own.fetch

/-- The node's answer to a read under a small integer. -/
def fetchElement (o : Object) (idx : Nat) : Option Fetch :=
  match o.array.bind fun arr => arr.ownElementValue idx with
  | some v => some (.value v)
  | none => (lookupOwnProperty o.links (internIndexKey idx)).map Own.fetch

/-- The keys of the elements, in the order in which they are listed. -/
def indexKeys (o : Object) : List Value :=
  match o.array with
  | none => []
  | some arr => arr.ownIndexKeys.map fun i => (internIndexKey i).keyToValue

/-- The keys of the slots that are no holes, the oldest first. -/
def liveNames (o : Object) : List Value :=
  ((o.links.filter fun l => l.slot ≠ .hole).map fun l => l.key.keyToValue).reverse

def hasOwn (o : Object) (key : PropertyKey) : Bool :=
  (match o.array with
    | none => false
    | some arr =>
      ((arrayIndexFromKey key).bind fun idx => arr.ownElementValue idx).isSome ||
        key = lengthKey) ||
    (lookupOwnProperty o.links key).isSome

end Object

/-- Append the names that are not listed yet. -/
def listNames : List Value → List Value → List Value
  | out, [] => out
  | out, k :: names => listNames (if k ∈ out then out else out ++ [k]) names

/-! ## Descriptors -/

structure PropertyDescriptor where
  hasValue : Bool := false
  hasWritable : Bool := false
  hasEnumerable : Bool := false
  hasConfigurable : Bool := false
  hasGet : Bool := false
  hasSet : Bool := false
  value : Value := .undefined
  writable : Bool := false
  enumerable : Bool := false
  configurable : Bool := false
  getter : Option Closure := none
  setter : Option Closure := none
  deriving DecidableEq

def PropertyDescriptor.isAccessor (d : PropertyDescriptor) : Bool := d.hasGet || d.hasSet

/-- The attributes a descriptor asks for; an absent field is `false`. -/
def PropertyDescriptor.attrs (d : PropertyDescriptor) : PropertyAttrs :=
  { enumerable := d.enumerable
    configurable := d.configurable
    isAccessor := d.isAccessor
    writable := !d.isAccessor && d.writable }

def PropertyDescriptor.stored (d : PropertyDescriptor) : Value :=
  if d.hasValue then d.value else .undefined

def dataDescriptor (v : Value) (a : PropertyAttrs) : PropertyDescriptor :=
  { hasValue := true, hasWritable := true, hasEnumerable := true, hasConfigurable := true
    value := v, writable := a.writable, enumerable := a.enumerable
    configurable := a.configurable }

def optionalClosure : Option Closure → Value
  | none => .undefined
  | some c => .closure c

/-- The fields of the object made for a descriptor, in the order of their definition. -/
def PropertyDescriptor.fields (d : PropertyDescriptor) : List (PropertyKey × Value) :=
  (if d.isAccessor then
    [(nameKey "get", optionalClosure d.getter), (nameKey "set", optionalClosure d.setter)]
  else [(nameKey "value", d.value), (nameKey "writable", .boolean d.writable)]) ++
  [(nameKey "enumerable", .boolean d.enumerable), (nameKey "configurable", .boolean d.configurable)]

inductive Described where
  | absent
  | found (d : PropertyDescriptor)
  | confused
  deriving DecidableEq

/-- How a store came out; a setter is still to be called. -/
inductive StoreAnswer where
  | wrote
  | setter (c : Closure)
  | noSetter
  | readOnly
  | confused
  deriving DecidableEq

inductive DefineAnswer where
  | defined
  | notExtensible
  | lengthAccessor
  | setLength (v : Value)
  | indexAccessor
  | elementNotExtensible
  | nonWritable
  | confused
  deriving DecidableEq

namespace Isolate

variable (s : Isolate)

def getAlongChain (start : ObjectId) (key : PropertyKey) : Fetch :=
  ((s.chain start).findSome? fun id => (s.objects id).fetch key).getD (.value .undefined)

def getElementAlongChain (start : ObjectId) (idx : Nat) : Fetch :=
  ((s.chain start).findSome? fun id => (s.objects id).fetchElement idx).getD (.value .undefined)

def hasAlongChain (start : ObjectId) (key : PropertyKey) : Bool :=
  (s.chain start).any fun id => (s.objects id).hasOwn key

/-- `getOwnPropertyDescriptorValue`, up to the object made of the descriptor. -/
def ownDescriptor (obj : ObjectId) (key : PropertyKey) : Described :=
  let o := s.objects obj
  let named : Described :=
    match ownLink o.links key with
    | none => .absent
    | some l =>
      match l.own with
      | none => .absent
      | some .confused => .confused
      | some (.data v) => .found (dataDescriptor v l.attrs)
      | some (.accessor getter setter) =>
        .found { hasEnumerable := true, hasConfigurable := true, hasGet := true
                 hasSet := true, enumerable := l.attrs.enumerable
                 configurable := l.attrs.configurable, getter := getter
                 setter := setter }
  match o.array with
  | none => named
  | some arr =>
    if key = lengthKey then
      .found (dataDescriptor (arrayLengthValue arr) { writable := true })
    else
      match arrayIndexFromKey key with
      | none => named
      | some idx =>
        match arr.ownElementValue idx with
        | none => .absent
        | some v => .found (dataDescriptor v kDefaultDataAttrs)

/-- The own keys: indices in ascending order, then names by age; a name listed before is
not listed again. -/
def ownKeysValues (obj : ObjectId) (includeLength : Bool) : List Value :=
  let o := s.objects obj
  let length := if o.array.isSome && includeLength then [lengthKey.keyToValue] else []
  listNames (o.indexKeys ++ length) o.liveNames

/-! ## Stores -/

def setArray (obj : ObjectId) (arr : ArrayObject Value) : Isolate :=
  s.update obj { s.objects obj with array := some arr }

def writeOwn (obj : ObjectId) (key : PropertyKey) (slot : Slot) : Isolate :=
  match findOwnSlot (s.objects obj).links key with
  | none => s
  | some i => s.setLinks obj (writeSlot (s.objects obj).links i slot)

def isReadOnly (obj : ObjectId) (key : PropertyKey) : Bool :=
  match ownDataSlotAttrs (s.objects obj).links key with
  | none => false
  | some (_, attrs) => !attrs.writable

/-- Append a slot to an object that is no array or has no use for the key. -/
def pushLink (obj : ObjectId) (l : Link) : Isolate :=
  s.setLinks obj (l :: (s.objects obj).links)

/-- `defineProperty` of a default data property.  Arrays route index keys to their
elements; a write of their `length` does not come here. -/
def defineProperty (obj : ObjectId) (key : PropertyKey) (v : Value) : Isolate :=
  match (s.objects obj).array, arrayIndexFromKey key with
  | some arr, some idx => s.setArray obj (arr.setArrayElement idx v)
  | some _, none => if key = lengthKey then s else s.pushLink obj ⟨key, kDefaultDataAttrs, .data v⟩
  | none, _ => s.pushLink obj ⟨key, kDefaultDataAttrs, .data v⟩

/-- A store along the chain, up to the call of a setter.  A data property that another
object has is shadowed by a fresh own one. -/
def storeAlongChain (honorWritable : Bool) (start : ObjectId) (key : PropertyKey)
    (v : Value) : StoreAnswer × Isolate :=
  match s.lookupProperty start key with
  | none => (.wrote, s.defineProperty start key v)
  | some (_, .confused) => (.confused, s)
  | some (_, .accessor _ none) => (.noSetter, s)
  | some (_, .accessor _ (some c)) => (.setter c, s)
  | some (holder, .data _) =>
    if holder ≠ start then (.wrote, s.defineProperty start key v)
    else if honorWritable && s.isReadOnly start key then (.readOnly, s)
    else (.wrote, s.writeOwn start key (.data v))

def setAlongChain := s.storeAlongChain true

/-- The walk of the store under a small integer, which does not ask for `writable`. -/
def setElementAlongChain := s.storeAlongChain false

/-- A declared global is undefined until it is stored to. -/
def defineGlobalVar (name : PropertyKey) : Isolate :=
  match s.lookupProperty s.global name with
  | none => s.defineProperty s.global name .undefined
  | some _ => s

/-- The operations of arrays; anything else has none. -/
def arrayStep (obj : ObjectId) (op : ArrayOp Value) : OpResult Value × Isolate :=
  match (s.objects obj).array with
  | none => (.done, s)
  | some arr => ((arr.step op).1, s.setArray obj (arr.step op).2)

def deleteNamed (obj : ObjectId) (key : PropertyKey) : Bool × Isolate :=
  match ownLink (s.objects obj).links key with
  | none => (true, s)
  | some l => if l.slot = .hole then (true, s) else (true, s.writeOwn obj key .hole)

/-- `deletePropertyImpl` of an object; the attributes are not asked. -/
def deleteOwn (obj : ObjectId) (key : PropertyKey) : Bool × Isolate :=
  match (s.objects obj).array with
  | none => s.deleteNamed obj key
  | some arr =>
    if key = lengthKey then (false, s)
    else
      match arrayIndexFromKey key with
      | some idx => (true, s.setArray obj (arr.deleteElement idx))
      | none => s.deleteNamed obj key

/-- The new chain would lead back to the object. -/
def makesCycle (obj : ObjectId) (proto : Value) : Bool :=
  match objectOfValue proto with
  | none => false
  | some p => obj ∈ s.chain p

def setPrototype (obj : ObjectId) (proto : Value) : Bool × Isolate :=
  if s.makesCycle obj proto then (false, s)
  else (true, s.update obj { s.objects obj with proto := proto })

/-- `definePropertyDescriptor` of a name that arrays have no use for. -/
def defineNamed (obj : ObjectId) (key : PropertyKey) (d : PropertyDescriptor) :
    DefineAnswer × Isolate :=
  let links := (s.objects obj).links
  let attrs := d.attrs
  if d.isAccessor then
    let s := { s with accessorEpoch := s.accessorEpoch + 1 }
    let slot := Slot.accessor d.getter d.setter
    let fresh := (DefineAnswer.defined, s.pushLink obj ⟨key, attrs, slot⟩)
    match ownLink links key with
    | none => fresh
    | some l =>
      -- An accessor under equal attributes is replaced in its slot.
      let same : Bool := { l.attrs with isAccessor := true } = attrs
      match l.own with
      | some (.accessor _ _) => if same then (.defined, s.writeOwn obj key slot) else fresh
      | some .confused => if l.attrs.isAccessor && same then (.confused, s) else fresh
      | _ => fresh
  else
    let fresh := (DefineAnswer.defined, s.pushLink obj ⟨key, attrs, .data d.stored⟩)
    match ownLink links key with
    | none => fresh
    | some l =>
      match l.own with
      | some (.data v) =>
        if l.attrs = attrs then
          if attrs.writable then (.defined, s.writeOwn obj key (.data d.stored))
          else if d.hasValue && !v.sameValue d.value then (.nonWritable, s)
          else fresh
        else fresh
      | _ => fresh

def definePropertyDescriptor (obj : ObjectId) (key : PropertyKey) (d : PropertyDescriptor) :
    DefineAnswer × Isolate :=
  let o := s.objects obj
  if !o.extensible && (lookupOwnProperty o.links key).isNone then (.notExtensible, s)
  else
    match o.array with
    | none => s.defineNamed obj key d
    | some arr =>
      if key = lengthKey then
        if d.isAccessor then (.lengthAccessor, s) else (.setLength d.stored, s)
      else
        match arrayIndexFromKey key with
        | none => s.defineNamed obj key d
        | some idx =>
          if d.isAccessor then (.indexAccessor, s)
          else if !o.extensible && (arr.ownElementValue idx).isNone then
            (.elementNotExtensible, s)
          else if d.hasValue then
            (.defined, s.setArray obj (arr.setArrayElement idx d.value))
          else (.defined, s)

def preventExtensions (obj : ObjectId) : Isolate :=
  s.update obj { s.objects obj with extensible := false }

def alloc (o : Object) : ObjectId × Isolate :=
  (s.allocated, { s.update s.allocated o with allocated := s.allocated + 1 })

/-- Links of default data properties defined in this order. -/
def dataLinks (fields : List (PropertyKey × Value)) : List Link :=
  fields.reverse.map fun f => ⟨f.1, kDefaultDataAttrs, .data f.2⟩

/-- A plain object with some data properties; its prototype is `Object.prototype` unless
another is given. -/
def newPlainObject (proto : Option Value) (fields : List (PropertyKey × Value)) :
    ObjectId × Isolate :=
  s.alloc { links := dataLinks fields, proto := proto.getD (.object s.objectPrototype) }

def newArray : ObjectId × Isolate :=
  s.alloc { proto := .object s.arrayPrototype, array := some {} }

/-- A closure gets an object for its properties and a fresh `prototype`, whose
`constructor` is the closure. -/
def makeClosure : Closure × Isolate :=
  let c : Closure := ⟨s.allocated, s.allocated⟩
  let proto := s.allocated + 1
  let s := (s.alloc { links := dataLinks [(nameKey "prototype", .object proto)]
                      proto := .object s.functionPrototype }).2
  (c, (s.alloc { links := dataLinks [(nameKey "constructor", .closure c)]
                 proto := .object s.objectPrototype }).2)

end Isolate

/-- What happens to the heap with no code of the program in between. -/
inductive HeapOp : Type → Type 1 where
  | read {β : Type} (f : Isolate → β) : HeapOp β
  | set (start : ObjectId) (key : PropertyKey) (v : Value) : HeapOp StoreAnswer
  | setElement (start : ObjectId) (key : PropertyKey) (v : Value) : HeapOp StoreAnswer
  | defineGlobalVar (name : PropertyKey) : HeapOp Unit
  | array (obj : ObjectId) (op : ArrayOp Value) : HeapOp (OpResult Value)
  | delete (obj : ObjectId) (key : PropertyKey) : HeapOp Bool
  | setPrototype (obj : ObjectId) (proto : Value) : HeapOp Bool
  | defineDescriptor (obj : ObjectId) (key : PropertyKey) (d : PropertyDescriptor) :
      HeapOp DefineAnswer
  | preventExtensions (obj : ObjectId) : HeapOp Unit
  | newPlainObject (proto : Option Value) (fields : List (PropertyKey × Value)) : HeapOp ObjectId
  | newArray : HeapOp ObjectId
  | newClosure : HeapOp Closure

def HeapOp.run {β : Type} : HeapOp β → Isolate → β × Isolate
  | .read f, s => (f s, s)
  | .set start key v, s => s.setAlongChain start key v
  | .setElement start key v, s => s.setElementAlongChain start key v
  | .defineGlobalVar name, s => ((), s.defineGlobalVar name)
  | .array obj op, s => s.arrayStep obj op
  | .delete obj key, s => s.deleteOwn obj key
  | .setPrototype obj proto, s => s.setPrototype obj proto
  | .defineDescriptor obj key d, s => s.definePropertyDescriptor obj key d
  | .preventExtensions obj, s => ((), s.preventExtensions obj)
  | .newPlainObject proto fields, s => s.newPlainObject proto fields
  | .newArray, s => s.newArray
  | .newClosure, s => s.makeClosure

end B2Compiler.Ts
