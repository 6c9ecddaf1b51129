import Mathlib.Algebra.Order.Ring.Nat
import B2Compiler.Interp.Heap

/-!
# Runtime services of the tier-0 interpreter

The class registry with its initialisation flags, field and method resolution,
static storage, allocation, exception objects, the `println` builtins and the
profile counters.  Class names and field keys share one table: a class maps to
twice its id, a field to twice its id plus one, so that the parity tells the two
apart even when a hostile class name spells a field key.  Identifiers and
counters that grow with allocated memory are natural numbers; the profile
counters saturate at thirty-two bits as in the source.
-/

namespace B2Compiler.Interp

open Rbc String

/-! ## Data -/

/-- One registered class.  `initialized` is set when the initializer is started. -/
structure ClassInfo where
  name : String := ""
  superclass : Nat := 0
  initialized : Bool := false
  fields : List Nat := []
  isExceptionClass : Bool := false
  deriving DecidableEq, Repr, Inhabited

structure ResolvedField where
  id : Nat
  cls : Nat
  slot : Nat
  type : RType
  deriving DecidableEq, Repr

/-- Saturating per-method counters. -/
structure MethodProfile where
  invocations : Nat := 0
  backedges : Nat := 0
  deriving DecidableEq, Repr, Inhabited

/-- What the host supplies: IEEE arithmetic, and the shortest scientific
rendering of a finite non-zero number. -/
structure Host where
  ops : FloatOps
  toCharsF : BitVec 32 → String
  toCharsD : BitVec 64 → String
  deriving Inhabited

/-- Runtime state of one program. -/
structure Runtime where
  heap : Heap := {}
  classes : List ClassInfo := []
  classByName : List (String × Nat) := []
  fieldIndex : List (Nat × Nat) := []
  statics : List Value := []
  profiles : List MethodProfile := []
  classObjects : List Nat := []
  systemOut : Nat := 0
  systemErr : Nat := 0
  out : String := ""
  err : String := ""
  deriving DecidableEq, Repr, Inhabited

/-- Builtin virtual methods. -/
inductive Builtin where
  | none | println | print
  deriving DecidableEq, Repr, Inhabited

/-! ## Number formatting -/

/-- Sign, mantissa digits and exponent of the first digit of a rendered number. -/
structure ShortestDecimal where
  negative : Bool
  digits : List Char
  exponent : Int
  deriving DecidableEq, Repr

/-- Decimal value of a digit string; `none` on any other character. -/
def parseExponent : Int → List Char → Option Int
  | acc, [] => some acc
  | acc, c :: cs => if c.isDigit then parseExponent (acc * 10 + (c.toNat - '0'.toNat)) cs else none

/-- Split `d.ddde±xx` at its exponent mark, dropping the point. -/
def parseMantissa : List Char → List Char → Option (List Char × Int)
  | _, [] => none
  | digits, c :: cs =>
    if c = 'e' ∨ c = 'E' then
      match cs with
      | '-' :: ds => (parseExponent 0 ds).map fun e => (digits, -e)
      | '+' :: ds => (parseExponent 0 ds).map fun e => (digits, e)
      | ds => (parseExponent 0 ds).map fun e => (digits, e)
    else if c.isDigit then
      if 32 ≤ digits.length then none else parseMantissa (digits ++ [c]) cs
    else if c = '.' then parseMantissa digits cs
    else none

def parseShortestScientific (s : String) : Option ShortestDecimal :=
  let (negative, cs) := match s.toList with
    | '-' :: cs => (true, cs)
    | cs => (false, cs)
  match parseMantissa [] cs with
  | some (d :: ds, e) => some ⟨negative, d :: ds, e⟩
  | _ => none

/-- Lay a shortest decimal out as Java prints it. -/
def layoutDecimal (sd : ShortestDecimal) : String :=
  let d := sd.digits
  let body : List Char :=
    if -3 ≤ sd.exponent ∧ sd.exponent < 7 then
      if 0 ≤ sd.exponent then
        let intDigits := sd.exponent.toNat + 1
        if d.length ≤ intDigits then
          d ++ List.replicate (intDigits - d.length) '0' ++ ['.', '0']
        else d.take intDigits ++ ['.'] ++ d.drop intDigits
      else ['0', '.'] ++ List.replicate ((-sd.exponent).toNat - 1) '0' ++ d
    else
      d.take 1 ++ ['.'] ++ (if 1 < d.length then d.drop 1 else ['0']) ++ ['E']
        ++ (toString sd.exponent).toList
  ofList (if sd.negative then '-' :: body else body)

/-- Java's text of a number that is not special, from the host's rendering. -/
def javaFiniteString (rendered : String) : String :=
  match parseShortestScientific rendered with
  | some sd => layoutDecimal sd
  | none => "NaN"

def javaFloatString (host : Host) (v : BitVec 32) : String :=
  if isNanF v then "NaN"
  else if v &&& 0x7FFFFFFF = 0x7F800000 then (if v.msb then "-Infinity" else "Infinity")
  else if v &&& 0x7FFFFFFF = 0 then (if v.msb then "-0.0" else "0.0")
  else javaFiniteString (host.toCharsF v)

def javaDoubleString (host : Host) (v : BitVec 64) : String :=
  if isNanD v then "NaN"
  else if v &&& 0x7FFFFFFFFFFFFFFF = 0x7FF0000000000000 then
    (if v.msb then "-Infinity" else "Infinity")
  else if v &&& 0x7FFFFFFFFFFFFFFF = 0 then (if v.msb then "-0.0" else "0.0")
  else javaFiniteString (host.toCharsD v)

/-! ## Keys and descriptors -/

/-- Does a registry value name a field? -/
def isFieldRegistryEntry (v : Nat) : Bool := v % 2 = 1

def fieldRegistryKey (cls name : String) : String :=
  "\x01" ++ cls ++ "\x01" ++ name

def fieldDescriptorType (descriptor : String) : RType :=
  match descriptor.toList with
  | [] => .bottom
  | ['I'] | ['Z'] | ['B'] | ['C'] | ['S'] => .int
  | ['J'] => .long
  | ['F'] => .float
  | ['D'] => .double
  | 'L' :: rest =>
    if rest.length < 2 ∨ rest.getLast? ≠ some ';' then .bottom
    else if rest.dropLast.any (fun c => c = '(' ∨ c = ')' ∨ c = '[' ∨ c = ';') then .bottom
    else .ref
  | '[' :: rest =>
    match rest.dropWhile (· == '[') with
    | [] => .bottom
    -- behind an `L` only the last character and the length are looked at
    | 'L' :: name => if name.getLast? = some ';' ∧ 2 ≤ name.length then .ref else .bottom
    | [c] => if c ∈ ['I', 'J', 'F', 'D', 'Z', 'B', 'C', 'S'] then .ref else .bottom
    | _ => .bottom
  | _ => .bottom

/-- Descriptors of the printing builtins. -/
def kPrintOverloads : List String :=
  ["()V", "(I)V", "(J)V", "(F)V", "(D)V", "(Z)V", "(C)V", "(Ljava/lang/String;)V",
    "(Ljava/lang/Object;)V"]

/-- Bytes of a slot; quickened field accesses carry byte offsets. -/
def kValueSlotBytes : Nat := 16

/-- Slashes of an internal name as dots. -/
def dotted (name : String) : String :=
  ofList (name.toList.map fun c => if c = '/' then '.' else c)

/-- Saturating increment of a thirty-two-bit counter. -/
def bump32 (n : Nat) : Nat := if n = 2 ^ 32 - 1 then n else n + 1

namespace Runtime

/-! ## Class registry -/

/-- The builtin classes in registration order: name, superclass, and whether it
is an exception class.  Positions are class ids. -/
def builtinClasses : List (String × Nat × Bool) :=
  [("java/lang/Object", 0, false), ("java/lang/String", 0, false),
    ("java/lang/Class", 0, false), ("java/io/PrintStream", 0, false),
    ("java/lang/System", 0, false), ("java/lang/Throwable", 0, true),
    ("java/lang/Exception", 5, true), ("java/lang/Error", 5, true),
    ("java/lang/RuntimeException", 6, true), ("java/lang/ArithmeticException", 8, true),
    ("java/lang/NullPointerException", 8, true), ("java/lang/ArrayStoreException", 8, true),
    ("java/lang/ClassCastException", 8, true),
    ("java/lang/IllegalMonitorStateException", 8, true),
    ("java/lang/IndexOutOfBoundsException", 8, true),
    ("java/lang/NegativeArraySizeException", 8, true),
    ("java/lang/UnsupportedOperationException", 8, true),
    ("java/lang/ArrayIndexOutOfBoundsException", 14, true),
    ("java/lang/VirtualMachineError", 7, true), ("java/lang/InternalError", 18, true),
    ("java/lang/StackOverflowError", 18, true), ("java/lang/LinkageError", 7, true),
    ("java/lang/NoSuchMethodError", 21, true), ("java/lang/BootstrapMethodError", 21, true)]

def stringClass : Nat := 1

def classClass : Nat := 2

def throwableClass : Nat := 5

/-- Add a class at the end of the registry and map its name to it. -/
def addClass (rt : Runtime) (ci : ClassInfo) : Nat × Runtime :=
  (rt.classes.length,
    { rt with
      classes := rt.classes ++ [ci]
      classByName := (ci.name, 2 * rt.classes.length) :: rt.classByName })

def registerBuiltinClasses (rt : Runtime) : Runtime :=
  builtinClasses.foldl (fun rt row =>
      (rt.addClass { name := row.1, superclass := row.2.1, isExceptionClass := row.2.2 }).2)
    rt

/-- Class id registered under a name. -/
def lookupClass (rt : Runtime) (internalName : String) : Option Nat :=
  match rt.classByName.lookup internalName with
  | some v => if isFieldRegistryEntry v then none else some (v / 2)
  | none => none

/-- Intern a class name.  A name whose key holds a field entry takes the key over. -/
def classId (rt : Runtime) (internalName : String) : Nat × Runtime :=
  match rt.lookupClass internalName with
  | some c => (c, rt)
  | none => rt.addClass { name := internalName }

/-- Class id of a name, one past the end when it is unknown. -/
def findClass (rt : Runtime) (internalName : String) : Nat :=
  (rt.lookupClass internalName).getD rt.classes.length

def classInfo (rt : Runtime) (id : Nat) : ClassInfo :=
  rt.classes.getD id {}

/-- Change a class in place; ids outside the registry change nothing. -/
def setClass (rt : Runtime) (id : Nat) (ci : ClassInfo) : Runtime :=
  { rt with classes := rt.classes.set id ci }

/-- A fresh runtime: builtin classes, the two print streams, one profile a method. -/
def init (p : Program) : Runtime :=
  let rt := registerBuiltinClasses {}
  let printStream := rt.findClass "java/io/PrintStream"
  let (out, heap) := rt.heap.allocInstance printStream 0
  let (err, heap) := heap.allocInstance printStream 0
  { rt with
    heap
    systemOut := out
    systemErr := err
    profiles := List.replicate p.methods.length {} }

/-- Does the class own an initializer that has not been started?  Only the
program's own class can. -/
def needsInit (p : Program) (rt : Runtime) (id : Nat) : Bool :=
  if rt.classes.length ≤ id ∨ (rt.classInfo id).initialized then false
  else if (rt.classInfo id).name ≠ p.className then false
  else (p.find "<clinit>" "()V").isSome

/-- The initializer of a class that needs one, else method `0`. -/
def findClinit (p : Program) (rt : Runtime) (id : Nat) : Nat :=
  if rt.needsInit p id then (p.find "<clinit>" "()V").getD 0 else 0

def markInitialized (rt : Runtime) (id : Nat) : Runtime :=
  rt.setClass id { rt.classInfo id with initialized := true }

/-- Climb the superclass chain from `cur`, at most `guard` classes. -/
def climbsTo (rt : Runtime) (target : Nat) : Nat → Nat → Bool
  | 0, _ => false
  | guard + 1, cur =>
    if cur = target then true
    else
      let sup := (rt.classInfo cur).superclass
      if sup = cur ∨ rt.classes.length ≤ sup then false
      else climbsTo rt target guard sup

def isArrayName (name : String) : Bool :=
  match name.toList with
  | '[' :: _ => true
  | _ => false

/-- Subclassing along the registered chain; arrays match by identity only. -/
def isAssignableFrom (rt : Runtime) (target value : Nat) : Bool :=
  if rt.classes.length ≤ target ∨ rt.classes.length ≤ value then false
  else if isArrayName (rt.classInfo target).name || isArrayName (rt.classInfo value).name then
    target = value
  else rt.climbsTo target (rt.classes.length + 1) value

/-- Internal name of an object's class, empty for a dead reference. -/
def classNameOf (rt : Runtime) (r : Nat) : String :=
  match rt.heap.obj r with
  | some o => (rt.classInfo o.cls).name
  | none => ""

def dottedClassName (rt : Runtime) (id : Nat) : String :=
  dotted (rt.classInfo id).name

/-! ## Fields and statics -/

/-- Append a field to a class: a fresh id, the next slot of the class, a static
slot and, unless the key is taken by a class, the registry entry. -/
def addField (rt : Runtime) (cid : Nat) (key : String) : Nat × Nat × Runtime :=
  let fid := rt.fieldIndex.length
  let slot := (rt.classInfo cid).fields.length
  let ci := rt.classInfo cid
  let free := match rt.classByName.lookup key with
    | none => true
    | some v => isFieldRegistryEntry v
  (fid, slot,
    { rt with
      classes := rt.classes.set cid { ci with fields := ci.fields ++ [fid] }
      fieldIndex := rt.fieldIndex ++ [(cid, slot)]
      statics := rt.statics ++ [.bottom]
      classByName := if free then (key, 2 * fid + 1) :: rt.classByName else rt.classByName })

/-- Field registered under a key for a class: its id and slot. -/
def lookupField (rt : Runtime) (cid : Nat) (key : String) : Option (Nat × Nat) :=
  match rt.classByName.lookup key with
  | some v =>
    if isFieldRegistryEntry v then
      match rt.fieldIndex[v / 2]? with
      | some (c, slot) => if c = cid then some (v / 2, slot) else none
      | none => none
    else none
  | none => none

/-- Resolve a field reference, registering class and field on first use. -/
def resolveField (rt : Runtime) (fieldRef : Const) : Option ResolvedField × Runtime :=
  if fieldRef.kind ≠ .fieldRef then (none, rt)
  else
    let (cid, rt) := rt.classId fieldRef.str
    let key := fieldRegistryKey fieldRef.str fieldRef.str2
    let type := fieldDescriptorType fieldRef.str3
    match rt.lookupField cid key with
    | some (fid, slot) => (some ⟨fid, cid, slot, type⟩, rt)
    | none =>
      let (fid, slot, rt) := rt.addField cid key
      (some ⟨fid, cid, slot, type⟩, rt)

def slotOfFieldOffset (offset : Nat) : Nat := offset / kValueSlotBytes

def loadStatic (rt : Runtime) (f : Nat) : Value := rt.statics.getD f .bottom

def storeStatic (rt : Runtime) (f : Nat) (v : Value) : Runtime :=
  { rt with statics := (growTo rt.statics (f + 1)).set f v }

/-- The builtin statics: the two print streams. -/
def builtinStatic (rt : Runtime) (fieldRef : Const) : Option Nat :=
  if fieldRef.kind ≠ .fieldRef then none
  else if fieldRef.str ≠ "java/lang/System" then none
  else if fieldRef.str3 ≠ "Ljava/io/PrintStream;" then none
  else if fieldRef.str2 = "out" then some rt.systemOut
  else if fieldRef.str2 = "err" then some rt.systemErr
  else none

/-! ## Methods and builtins -/

def resolveMethod (p : Program) (methodRef : Const) : Option Nat :=
  if methodRef.kind ≠ .methodRef ∧ methodRef.kind ≠ .interfaceMethodRef then none
  else if methodRef.str ≠ p.className then none
  else p.find methodRef.str2 methodRef.str3

/-- The stand-in for an id outside the method table. -/
def badMethod : Method := { name := "<b2-bad-method-id>", descriptor := "()V" }

def method (p : Program) (id : Nat) : Method := p.methods.getD id badMethod

def lookupBuiltinVirtual (rt : Runtime) (receiverClass : Nat) (name descriptor : String) :
    Builtin :=
  if name ≠ "println" ∧ name ≠ "print" then .none
  else if (rt.classInfo receiverClass).name ≠ "java/io/PrintStream" then .none
  else if kPrintOverloads.contains descriptor then
    (if name = "println" then .println else .print)
  else .none

/-- Text of a printed value, by its run-time tag. -/
def javaValueText (host : Host) (rt : Runtime) (v : Value) : String :=
  match v.type with
  | .int => toString v.asInt.toInt
  | .long => toString v.asLong.toInt
  | .float => javaFloatString host v.asFloat
  | .double => javaDoubleString host v.asDouble
  | .null => "null"
  | .ref =>
    if rt.heap.isString v.asObj then rt.heap.stringOf v.asObj
    else dotted (rt.classNameOf v.asObj) ++ "@" ++ toString v.asObj
  | .bottom => ""

/-- Run a builtin; `none` on an arity the builtin does not have. -/
def execBuiltin (host : Host) (rt : Runtime) (b : Builtin) (args : List Value) : Option Runtime :=
  if b = .none then none
  else
    let newline := if b = .println then "\n" else ""
    let print (recv : Value) (text : String) : Runtime :=
      if recv.isRef && recv.asObj == rt.systemErr then { rt with err := rt.err ++ text ++ newline }
      else { rt with out := rt.out ++ text ++ newline }
    match args with
    | [recv] => some (print recv "")
    | [recv, v] => some (print recv (rt.javaValueText host v))
    | _ => none

/-! ## Allocation -/

def withHeap (rt : Runtime) (r : Nat × Heap) : Nat × Runtime :=
  (r.1, { rt with heap := r.2 })

def newInstance (rt : Runtime) (cls : Nat) : Nat × Runtime :=
  rt.withHeap (rt.heap.allocInstance cls (rt.classInfo cls).fields.length)

/-- Element type and class name of a primitive array code; unknown codes are `int`. -/
def atypeRow : Nat → RType × String
  | 4 => (.int, "[Z")
  | 5 => (.int, "[C")
  | 6 => (.float, "[F")
  | 7 => (.double, "[D")
  | 8 => (.int, "[B")
  | 9 => (.int, "[S")
  | 11 => (.long, "[J")
  | _ => (.int, "[I")

def newArray (rt : Runtime) (atype length : Nat) : Nat × Runtime :=
  let (cls, rt) := rt.classId (atypeRow atype).2
  rt.withHeap (rt.heap.allocArray cls (atypeRow atype).1 length)

/-- Class name of an array over a named class. -/
def refArrayName (name : String) : String :=
  if name = "" then "[Ljava/lang/Object;"
  else if isArrayName name then "[" ++ name
  else "[L" ++ name ++ ";"

def newRefArray (rt : Runtime) (elementClass length : Nat) : Nat × Runtime :=
  let (cls, rt) := rt.classId (refArrayName (rt.classInfo elementClass).name)
  rt.withHeap (rt.heap.allocArray cls .ref length)

/-- Length of a dimension: absent and negative ones are `0`. -/
def dimLength (dims : List (BitVec 32)) (level : Nat) : Nat :=
  (dims.getD level 0).toInt.toNat

/-- Name of the element class one bracket deeper. -/
def childArrayName (name : String) : String :=
  match name.toList with
  | '[' :: rest => ofList rest
  | _ => name

/-- Store a freshly built sub-array; the slot exists, so the store succeeds. -/
def storeSub (rt : Runtime) (arr i sub : Nat) : Runtime :=
  { rt with heap := (rt.heap.storeElem arr i (.refVal sub)).getD rt.heap }

/-- One level of a nest of arrays, its sub-arrays built left to right. -/
def buildMultiLevel (rt : Runtime) (name : String) (baseElem : RType)
    (dims : List (BitVec 32)) (level : Nat) : Nat → Nat × Runtime
  | 0 | 1 =>
    let (cls, rt) := rt.classId name
    rt.withHeap (rt.heap.allocArray cls baseElem (dimLength dims level))
  | depthLeft + 2 =>
    let (cls, rt) := rt.classId name
    let (arr, rt) := rt.withHeap (rt.heap.allocArray cls .ref (dimLength dims level))
    (arr, (List.range (dimLength dims level)).foldl (fun rt i =>
        let (sub, rt) :=
          buildMultiLevel rt (childArrayName name) baseElem dims (level + 1) (depthLeft + 1)
        rt.storeSub arr i sub)
      rt)

/-- Build the nest of a `multianewarray`: the brackets of the class name give the
depth, dimensions that are not given are empty. -/
def newMultiArray (rt : Runtime) (elementClass : Nat) (dims : List (BitVec 32)) : Nat × Runtime :=
  let fullName := (rt.classInfo elementClass).name
  let depth := (fullName.toList.takeWhile (· == '[')).length
  if depth = 0 then
    let base := if fullName = "" then "java/lang/Object" else fullName
    let (cls, rt) := rt.classId ("[L" ++ base ++ ";")
    rt.withHeap (rt.heap.allocArray cls .ref (dimLength dims 0))
  else
    let depth := min depth 255
    let suffix := ofList (fullName.toList.drop depth)
    let elem := fieldDescriptorType suffix
    buildMultiLevel rt fullName (if elem = .bottom then .ref else elem) dims 0 depth

def internString (rt : Runtime) (utf8 : String) : Nat × Runtime :=
  rt.withHeap (rt.heap.internString utf8 stringClass)

/-- The field every exception keeps its message in. -/
def detailMessage : Const :=
  { kind := .fieldRef, str := "java/lang/Throwable", str2 := "detailMessage",
    str3 := "Ljava/lang/String;" }

/-- Flag a class found below `Throwable`. -/
def markException (rt : Runtime) (cid : Nat) : Runtime :=
  if cid < rt.classes.length ∧ ¬ (rt.classInfo cid).isExceptionClass ∧
      rt.isAssignableFrom throwableClass cid then
    rt.setClass cid { rt.classInfo cid with isExceptionClass := true }
  else rt

/-- Build an exception object with its message. -/
def makeException (rt : Runtime) (internalName message : String) : Nat × Runtime :=
  let (cid, rt) := rt.classId internalName
  let rt := rt.markException cid
  let (exc, rt) := rt.newInstance cid
  match rt.resolveField detailMessage with
  | (some rf, rt) =>
    let (text, rt) := rt.internString message
    (exc, { rt with heap := (rt.heap.storeField exc rf.slot (.refVal text)).getD rt.heap })
  | (none, rt) => (exc, rt)

/-- The class object of a class, made on first request. -/
def classObject (rt : Runtime) (id : Nat) : Nat × Runtime :=
  let known := rt.classObjects ++ List.replicate (id + 1 - rt.classObjects.length) 0
  if known.getD id 0 ≠ 0 then (known.getD id 0, { rt with classObjects := known })
  else
    let (obj, rt) := rt.newInstance classClass
    (obj, { rt with classObjects := known.set id obj })

/-- Change the profile of a method; ids outside the table are dropped. -/
def bumpProfile (rt : Runtime) (id : Nat) (f : MethodProfile → MethodProfile) : Runtime :=
  { rt with profiles := rt.profiles.modify id f }

def bumpInvocations (rt : Runtime) (id : Nat) : Runtime :=
  rt.bumpProfile id fun mp => { mp with invocations := bump32 mp.invocations }

def bumpBackedge (rt : Runtime) (id : Nat) : Runtime :=
  rt.bumpProfile id fun mp => { mp with backedges := bump32 mp.backedges }

end Runtime

end B2Compiler.Interp
