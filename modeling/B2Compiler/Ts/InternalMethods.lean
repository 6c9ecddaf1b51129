import B2Compiler.Ts.Properties

/-!
# Internal methods

The internal methods of objects and of proxies, as procedures over the heap operations.
A proxy asks its handler for a trap; without one it forwards to its target, each method
by its own route, and with one it checks what the trap answered against the target.
-/

namespace B2Compiler.Ts

open Lib

/-! ## Procedures -/

/-- Control leaves a procedure for code of the program: a call, or the conversion of a
value to a number. -/
inductive Request where
  | call (f : Closure) (this : Value) (args : List Value)
  | toNumber (v : Value)
  deriving DecidableEq

/-- What comes back: a value or an exception. -/
abbrev Reply : Type := Except Value Value

abbrev Proc : Type → Type 1 := Procedure HeapOp Request Reply Value

/-- Where a procedure stops. -/
abbrev Halt : Type → Type 1 := Stop HeapOp Request Reply Value

abbrev Proc.exec {α : Type} (p : Proc α) (s : Isolate) : Halt α × Isolate :=
  Procedure.exec HeapOp.run p s

def perform {β : Type} (o : HeapOp β) : Proc β := Procedure.perform o

def read {β : Type} (f : Isolate → β) : Proc β := perform (.read f)

def request (q : Request) : Proc Value :=
  .call q fun
    | .ok v => .ret v
    | .error e => .throw e

def callClosure (f : Closure) (this : Value) (args : List Value) : Proc Value :=
  request (.call f this args)

/-! ## Errors -/

def bytes (s : String) : List UInt8 := s.toList.map fun c => UInt8.ofNat c.toNat

/-- An error object is thrown. -/
def makeError {α : Type} (name : String) (message : List UInt8) : Proc α := do
  let err ← perform (.newPlainObject none
    [(nameKey "name", .string (utf16 name)), (nameKey "message", .string (widen message))])
  .throw (.object err)

def typeError {α : Type} (message : List UInt8) : Proc α := makeError "TypeError" message

def rangeError {α : Type} (message : List UInt8) : Proc α := makeError "RangeError" message

/-- The key of an error text. -/
def quoted (key : PropertyKey) : List UInt8 := utf16ToUtf8 key.keyText

def toBoolean : Value → Bool
  | .undefined | .null => false
  | .boolean b => b
  | .smi i => i ≠ 0
  | .heapNumber d => d ≠ .nan ∧ d ≠ .negativeZero ∧ d ≠ .finite 0
  | .string t => t ≠ []
  | .bigint i => i ≠ 0
  | _ => true

/-! ## Objects -/

def arraySetLength (arr : ObjectId) (newLen : Value) : Proc Bool := do
  let num ← request (.toNumber newLen)
  match ← perform (.array arr (.setLength num.asDouble.toJsNumber)) with
  | .rangeError => do
      let text ← read fun s => s.doubleToString num.asDouble
      rangeError (bytes
        "Invalid array length (expected: ToUint32(length) == ToNumber(length), got " ++ text ++
        bytes ")")
  | _ => pure true

def fetched (recv : Value) : Fetch → Proc Value
  | .value v => pure v
  | .getter c => callClosure c recv []
  | .confused => .stuck

def getObject (obj : ObjectId) (recv : Value) (key : PropertyKey) : Proc Value := do
  let found ← read fun s => s.getAlongChain obj key
  fetched recv found

/-- The rest of a store, after the walk along the chain. -/
def stored (recv : Value) (key : PropertyKey) (v : Value) : StoreAnswer → Proc Bool
  | .wrote => pure true
  | .setter c => do
      let _ ← callClosure c recv [v]
      pure true
  | .noSetter => typeError (bytes "Cannot set property '" ++ quoted key ++ bytes "': no setter")
  | .readOnly =>
    typeError (bytes "Cannot assign to read only property '" ++ quoted key ++ bytes "'")
  | .confused => .stuck

/-- `[[Set]]` of an object. -/
def setObject (obj : ObjectId) (recv : Value) (key : PropertyKey) (v : Value) : Proc Bool := do
  if ← read fun s => (s.objects obj).array.isSome then
    if key = lengthKey then return ← arraySetLength obj v
    if let some idx := arrayIndexFromKey key then
      let _ ← perform (.array obj (.store idx v))
      return true
  let answer ← perform (.set obj key v)
  stored recv key v answer

def defineObject (obj : ObjectId) (key : PropertyKey) (d : PropertyDescriptor) : Proc Bool := do
  match ← perform (.defineDescriptor obj key d) with
  | .defined => pure true
  | .notExtensible =>
    typeError (bytes "Cannot define property '" ++ quoted key ++
      bytes "': object is not extensible")
  | .lengthAccessor => typeError (bytes "Array length must be a data property")
  | .setLength v => arraySetLength obj v
  | .indexAccessor => typeError (bytes "Cannot define an accessor property for an array index")
  | .elementNotExtensible =>
    typeError (bytes "Cannot add element '" ++ quoted key ++ bytes "': array is not extensible")
  | .nonWritable =>
    typeError (bytes "Cannot redefine non-writable property '" ++ quoted key ++
      bytes "' with a different value")
  | .confused => .stuck

def describeObject (obj : ObjectId) (key : PropertyKey) : Proc (Option ObjectId) := do
  match ← read fun s => s.ownDescriptor obj key with
  | .absent => pure none
  | .found d => do
      let desc ← perform (.newPlainObject none d.fields)
      pure (some desc)
  | .confused => .stuck

def describedValue : Option ObjectId → Value
  | none => .undefined
  | some desc => .object desc

/-- The trap of a handler; none when the property is undefined. -/
def proxyTrap (handler : ObjectId) (name : String) : Proc (Option Closure) := do
  match ← getObject handler (.object handler) (nameKey name) with
  | .closure c => pure (some c)
  | .undefined => pure none
  | _ => typeError (bytes "'" ++ bytes name ++ bytes "' trap must be a function or undefined")

def callTrap (trap : Closure) (handler : ObjectId) (args : List Value) : Proc Value :=
  callClosure trap (.object handler) args

/-- A field of a descriptor object, read as any property is. -/
def field (desc : ObjectId) (name : String) : Proc Value :=
  getObject desc (.object desc) (nameKey name)

def Value.isCallable : Value → Bool
  | .closure _ | .proxy .. => true
  | _ => false

/-- Check of a trap that answers for a property the target has and cannot lose. -/
def checkConfigurable (target : Value) (key : PropertyKey) (message : List UInt8) : Proc Unit := do
  match objectOfValue target with
  | none => pure ()
  | some t =>
    match ← describeObject t key with
    | none => pure ()
    | some desc =>
      let configurable ← field desc "configurable"
      if toBoolean configurable then pure () else typeError message

/-! ## `[[Get]]`, `[[Set]]`, `[[HasProperty]]`, `[[Delete]]` -/

/-- The answer of a `get` trap against the target's property. -/
def checkGet (target : Value) (key : PropertyKey) (result : Value) : Proc Value := do
  match objectOfValue target with
  | none => pure result
  | some t =>
    match ← describeObject t key with
    | none => pure result
    | some desc =>
      let configurable ← field desc "configurable"
      if configurable = .undefined ∨ toBoolean configurable then return result
      let writable ← field desc "writable"
      if writable ≠ .undefined ∧ !toBoolean writable then
        let value ← field desc "value"
        if result.sameValue value then pure result
        else
          typeError (bytes "'get' on proxy: property '" ++ quoted key ++ bytes
            ("' is a non-writable, non-configurable data property on the proxy " ++
              "target but the proxy did not return its actual value"))
      else
        let getter ← field desc "get"
        if getter = .undefined ∧ result ≠ .undefined then
          typeError (bytes "'get' on proxy: property '" ++ quoted key ++
            bytes "' is a non-configurable accessor without a getter")
        else pure result

def getProperty (v : Value) (key : PropertyKey) : Proc Value :=
  match v with
  | .proxy id target handler => do
      match ← proxyTrap handler "get" with
      | none => getProperty target key
      | some trap => do
          let result ← callTrap trap handler
            [target, key.keyToValue, .proxy id target handler]
          checkGet target key result
  | v =>
    match objectOfValue v with
    | none => pure .undefined
    | some obj => getObject obj v key

def proxyIsExtensible (target : Value) (handler : ObjectId) : Proc Bool := do
  let targetExtensible : Proc Bool :=
    match objectOfValue target with
    | none => pure true
    | some t => read fun s => (s.objects t).extensible
  match ← proxyTrap handler "isExtensible" with
  | none => targetExtensible
  | some trap => do
      let answer ← callTrap trap handler [target]
      let extensible := toBoolean answer
      if !extensible && !(← targetExtensible) then
        typeError (bytes "'isExtensible' on proxy: target is non-extensible")
      else pure extensible

/-- The answer of a `set` trap against the target's property. -/
def checkSet (target : Value) (key : PropertyKey) (v : Value) (extensible success : Bool) :
    Proc Unit := do
  let desc ← match objectOfValue target with
    | none => pure none
    | some t => describeObject t key
  match desc with
  | none =>
    if !extensible && success then
      typeError (bytes "'set' on proxy: new property '" ++ quoted key ++
        bytes "' on a non-extensible target")
    else pure ()
  | some desc =>
    let configurable ← field desc "configurable"
    if toBoolean configurable then return ()
    let writable ← field desc "writable"
    if writable ≠ .undefined then
      let value ← field desc "value"
      if !toBoolean writable && !v.sameValue value then
        typeError (bytes "'set' on proxy: property '" ++ quoted key ++ bytes
          ("' is a non-writable, non-configurable data property on the " ++
            "proxy target but the proxy did not report the same value"))
      else pure ()
    else
      let setter ← field desc "set"
      if setter = .undefined then
        typeError (bytes "'set' on proxy: property '" ++ quoted key ++
          bytes "' is a non-configurable accessor without a setter")
      else pure ()

def setProperty (recv : Value) (key : PropertyKey) (v : Value) : Proc Bool :=
  match recv with
  | .proxy id target handler => do
      match ← proxyTrap handler "set" with
      | none => setProperty target key v
      | some trap => do
          let answer ← callTrap trap handler
            [target, key.keyToValue, v, .proxy id target handler]
          let extensible ← proxyIsExtensible target handler
          checkSet target key v extensible (toBoolean answer)
          if toBoolean answer then pure true
          else
            typeError (bytes "'set' on proxy: trap returned falsish for property '" ++
              quoted key ++ bytes "'")
  | recv =>
    match objectOfValue recv with
    | none =>
      typeError (bytes "Cannot create property '" ++ quoted key ++ bytes "' on " ++
        bytes recv.kindName)
    | some obj => setObject obj recv key v

def hasProperty (recv : Value) (key : PropertyKey) : Proc Bool :=
  match recv with
  | .proxy _ target handler => do
      match ← proxyTrap handler "has" with
      | none => hasProperty target key
      | some trap => do
          let answer ← callTrap trap handler [target, key.keyToValue]
          if toBoolean answer then return true
          checkConfigurable target key (bytes "'has' on proxy: property '" ++ quoted key ++
            bytes ("' is a non-configurable own property of the proxy target but " ++
              "the proxy did not report it as existent"))
          pure false
  | recv =>
    match objectOfValue recv with
    | none => pure false
    | some obj => read fun s => s.hasAlongChain obj key

def deleteProperty (recv : Value) (key : PropertyKey) : Proc Bool :=
  match recv with
  | .proxy _ target handler => do
      match ← proxyTrap handler "deleteProperty" with
      | none => deleteProperty target key
      | some trap => do
          let answer ← callTrap trap handler [target, key.keyToValue]
          if !toBoolean answer then return false
          checkConfigurable target key (bytes "'deleteProperty' on proxy: property '" ++
            quoted key ++ bytes "' is a non-configurable own property of the proxy target")
          pure true
  | recv =>
    match objectOfValue recv with
    | none => pure true
    | some obj => perform (.delete obj key)

def getPrototypeOf (v : Value) : Proc Value :=
  match v with
  | .proxy _ target handler => do
      match ← proxyTrap handler "getPrototypeOf" with
      | none =>
        -- The target is read as a proxy exactly when it is none.
        match objectOfValue target with
        | some _ => .stuck
        | none => pure .null
      | some trap => do
          let targetProto ← match target with
            | .proxy .. => getPrototypeOf target
            | target =>
              match objectOfValue target with
              | none => pure Value.null
              | some t => read fun s => (s.objects t).proto
          let answer ← callTrap trap handler [target]
          if !answer.isObjectLike && answer ≠ .null then
            typeError (bytes "'getPrototypeOf' on proxy: trap returned neither object nor null")
          else
            let extensible ← proxyIsExtensible target handler
            if !extensible && !answer.sameValue targetProto then
              typeError (bytes "'getPrototypeOf' on proxy: non-extensible target proto mismatch")
            else pure answer
  | v =>
    match objectOfValue v with
    | none => pure .undefined
    | some obj => read fun s => (s.objects obj).proto

def proxySetPrototype (v target : Value) (handler : ObjectId) (proto : Value) : Proc Bool := do
  match ← proxyTrap handler "setPrototypeOf" with
  | none =>
    match objectOfValue target with
    | none => pure false
    | some t => perform (.setPrototype t proto)
  | some trap => do
      let answer ← callTrap trap handler [target, proto]
      if !toBoolean answer then return false
      if ← proxyIsExtensible target handler then return true
      let current ← getPrototypeOf v
      pure (current.sameValue proto)

def setPrototypeOf (v proto : Value) : Proc Bool :=
  if !v.isObjectLike && !v.isProxy then pure false
  else if !proto.isObjectLike && proto ≠ .null then pure false
  else
    match v with
    | .proxy _ target handler => proxySetPrototype v target handler proto
    | v =>
      match objectOfValue v with
      | none => pure false
      | some obj => perform (.setPrototype obj proto)

def getOwnPropertyDescriptor (v : Value) (key : PropertyKey) : Proc Value :=
  match v with
  | .proxy _ target handler => do
      match ← proxyTrap handler "getOwnPropertyDescriptor" with
      | none =>
        match objectOfValue target with
        | none => pure .undefined
        | some t => describedValue <$> describeObject t key
      | some trap => do
          let answer ← callTrap trap handler [target, key.keyToValue]
          if answer = .undefined then
            checkConfigurable target key (bytes
              ("'getOwnPropertyDescriptor' on proxy: trap reported " ++
                "non-configurable target property '") ++ quoted key ++
              bytes "' as undefined")
            pure .undefined
          else if answer.isObjectLike then pure answer
          else
            typeError (bytes ("'getOwnPropertyDescriptor' on proxy: trap must return an object " ++
              "or undefined"))
  | v =>
    match objectOfValue v with
    | none => pure .undefined
    | some obj => describedValue <$> describeObject obj key

def defineOwnProperty (v : Value) (key : PropertyKey) (d : PropertyDescriptor) : Proc Bool :=
  match v with
  | .proxy _ target handler => do
      match ← proxyTrap handler "defineProperty" with
      | none =>
        match objectOfValue target with
        | none => pure false
        | some t => defineObject t key d
      | some trap => do
          let desc ← perform (.newPlainObject none d.fields)
          let answer ← callTrap trap handler [target, key.keyToValue, .object desc]
          if !toBoolean answer then return false
          match objectOfValue target with
          | none => pure true
          | some t => do
              -- The descriptor of the target is made and dropped.
              let _ ← describeObject t key
              pure true
  | v =>
    match objectOfValue v with
    | none => typeError (bytes "Object.defineProperty requires an object, a key and a descriptor")
    | some obj => defineObject obj key d

/-! ## `[[IsExtensible]]`, `[[PreventExtensions]]`, `[[OwnPropertyKeys]]` -/

def isExtensible (v : Value) : Proc Bool :=
  match v with
  | .proxy _ target handler => proxyIsExtensible target handler
  | v =>
    match objectOfValue v with
    | none => pure true
    | some obj => read fun s => (s.objects obj).extensible

def preventTarget (target : Value) : Proc Unit :=
  match objectOfValue target with
  | none => pure ()
  | some t => perform (.preventExtensions t)

def preventExtensions (v : Value) : Proc Bool :=
  match v with
  | .proxy _ target handler => do
      match ← proxyTrap handler "preventExtensions" with
      | none => do
          preventTarget target
          pure true
      | some trap => do
          let answer ← callTrap trap handler [target]
          if !toBoolean answer then return false
          preventTarget target
          pure true
  | v =>
    match objectOfValue v with
    | none => pure true
    | some obj => do
        if ← read fun s => (s.objects obj).array.isSome then
          typeError (bytes ("Cannot prevent extensions on an array (length exotic support " ++
            "pending, bytecode_spec.md Section 11)"))
        else do
          perform (.preventExtensions obj)
          pure true

/-- The elements of a list a trap returned; only strings and symbols may stand there. -/
def trapKeys (elements : List Value) : Option (List Value) :=
  elements.mapM fun v =>
    match v with
    | .string _ | .symbol _ => some v
    | _ => none

/-- The check that every key the target cannot lose is among the keys of the trap. -/
def checkReported (target : ObjectId) (keys : List Value) : List Value → Proc Unit
  | [] => pure ()
  | k :: rest => do
      let key? : Option PropertyKey :=
        match k with
        | .string t => some (.text t)
        | .symbol s => some (.symbol s)
        | _ => none
      match key? with
      | none => checkReported target keys rest
      | some key =>
        if key = lengthKey then checkReported target keys rest
        else
          match ← describeObject target key with
          | none => checkReported target keys rest
          | some desc =>
            let configurable ← field desc "configurable"
            if !toBoolean configurable && !(keys.any fun have_ => have_.sameValue k) then
              typeError (bytes "'ownKeys' on proxy: non-configurable target key '" ++
                quoted key ++ bytes "' was not reported")
            else checkReported target keys rest

def checkOwnKeys (target : Value) (keys : List Value) : Proc (List Value) := do
  match objectOfValue target with
  | none => pure keys
  | some t =>
    let targetKeys ← read fun s => s.ownKeysValues t true
    if ← read fun s => (s.objects t).extensible then
      checkReported t keys targetKeys
      pure keys
    else if keys.length = targetKeys.length ∧
        targetKeys.all fun k => keys.any fun have_ => have_.sameValue k then
      pure keys
    else typeError (bytes "'ownKeys' on proxy: non-extensible target key set mismatch")

/-- The elements of an array in order, without its holes. -/
def ArrayObject.listed (arr : ArrayObject Value) : List Value :=
  (List.range arr.length).filterMap arr.ownElementValue

def ownKeys (v : Value) : Proc (List Value) :=
  match v with
  | .proxy _ target handler => do
      match ← proxyTrap handler "ownKeys" with
      | none =>
        match objectOfValue target with
        | none => pure []
        | some t => read fun s => s.ownKeysValues t false
      | some trap => do
          let answer ← callTrap trap handler [target]
          match objectOfValue answer with
          | none => typeError (bytes "'ownKeys' on proxy: trap result must be an array-like object")
          | some result =>
            let elements ← read fun s =>
              ((s.objects result).array.map ArrayObject.listed).getD []
            match trapKeys elements with
            | none =>
              typeError (bytes ("'ownKeys' on proxy: trap result must contain only strings " ++
                "and symbols"))
            | some keys => checkOwnKeys target keys
  | v =>
    match objectOfValue v with
    | none => pure []
    | some obj => read fun s => s.ownKeysValues obj true

/-- The array of the arguments a trap is given. -/
def argumentList (args : List Value) : Proc Value := do
  let arr ← perform .newArray
  let _ ← perform (.array arr (.push args))
  pure (.object arr)

def callValue (callee this : Value) (args : List Value) : Proc Value :=
  match callee with
  | .proxy _ target handler =>
    if !target.isCallable then typeError (bytes "proxy target is not callable")
    else do
      match ← proxyTrap handler "apply" with
      | none => callValue target this args
      | some trap => do
          let list ← argumentList args
          callTrap trap handler [target, this, list]
  | .closure c => callClosure c this args
  | v => typeError (bytes v.kindName ++ bytes " is not a function")

/-- `[[Construct]]`.  The array of the arguments is made before the trap is looked at;
without a trap nothing refers to it, and it is left out there. -/
def constructImpl (ctor : Value) (args : List Value) : Proc Value :=
  match ctor with
  | .proxy id target handler =>
    if !target.isCallable then typeError (bytes "proxy target is not a constructor")
    else do
      match ← proxyTrap handler "construct" with
      | none => constructImpl target args
      | some trap => do
          let list ← argumentList args
          let result ← callTrap trap handler [target, list, .proxy id target handler]
          if result.isObjectLike then pure result
          else typeError (bytes "'construct' on proxy: trap must return an object")
  | .closure c => do
      let proto ← getObject c.asObject (.closure c) (nameKey "prototype")
      let obj ← perform (.newPlainObject (if proto.isObjectLike then some proto else none) [])
      let result ← callClosure c (.object obj) args
      pure (if result.isObjectLike then result else .object obj)
  | _ => typeError (bytes "Class constructor is not callable")

/-- `getElementValue` with a small integer: no text is made of the index until a named
property is asked for. -/
def getElementValue (recv : Value) (idx : ArrayIndex) : Proc Value :=
  match objectOfValue recv with
  | none => getProperty recv (internIndexKey idx)
  | some obj => do
      let found ← read fun s => s.getElementAlongChain obj idx
      fetched recv found

def setElementValue (recv : Value) (idx : ArrayIndex) (v : Value) : Proc Bool :=
  match objectOfValue recv with
  | none => setProperty recv (internIndexKey idx) v
  | some obj => do
      if ← read fun s => (s.objects obj).array.isSome then
        let _ ← perform (.array obj (.store idx v))
        return true
      let answer ← perform (.setElement obj (internIndexKey idx) v)
      stored recv (internIndexKey idx) v answer

inductive Method where
  | get (key : PropertyKey)
  | set (key : PropertyKey) (v : Value)
  | has (key : PropertyKey)
  | delete (key : PropertyKey)
  | getPrototypeOf
  | setPrototypeOf (proto : Value)
  | getOwnPropertyDescriptor (key : PropertyKey)
  | defineProperty (key : PropertyKey) (d : PropertyDescriptor)
  | isExtensible
  | preventExtensions
  | ownKeys
  | call (this : Value) (args : List Value)
  | construct (args : List Value)

/-- What a method returns. -/
inductive Answer where
  | value (v : Value)
  | bool (b : Bool)
  | keys (ks : List Value)
  deriving DecidableEq

namespace Method

/-- The name of the trap. -/
def trap : Method → String
  | .get _ => "get"
  | .set .. => "set"
  | .has _ => "has"
  | .delete _ => "deleteProperty"
  | .getPrototypeOf => "getPrototypeOf"
  | .setPrototypeOf _ => "setPrototypeOf"
  | .getOwnPropertyDescriptor _ => "getOwnPropertyDescriptor"
  | .defineProperty .. => "defineProperty"
  | .isExtensible => "isExtensible"
  | .preventExtensions => "preventExtensions"
  | .ownKeys => "ownKeys"
  | .call .. => "apply"
  | .construct _ => "construct"

/-- The method applied to a value. -/
def run (v : Value) : Method → Proc Answer
  | .get key => .value <$> getProperty v key
  | .set key w => .bool <$> setProperty v key w
  | .has key => .bool <$> hasProperty v key
  | .delete key => .bool <$> deleteProperty v key
  | .getPrototypeOf => .value <$> B2Compiler.Ts.getPrototypeOf v
  | .setPrototypeOf proto => .bool <$> B2Compiler.Ts.setPrototypeOf v proto
  | .getOwnPropertyDescriptor key => .value <$> B2Compiler.Ts.getOwnPropertyDescriptor v key
  | .defineProperty key d => .bool <$> defineOwnProperty v key d
  | .isExtensible => .bool <$> B2Compiler.Ts.isExtensible v
  | .preventExtensions => .bool <$> B2Compiler.Ts.preventExtensions v
  | .ownKeys => .keys <$> B2Compiler.Ts.ownKeys v
  | .call this args => .value <$> callValue v this args
  | .construct args => .value <$> constructImpl v args

end Method

end B2Compiler.Ts
