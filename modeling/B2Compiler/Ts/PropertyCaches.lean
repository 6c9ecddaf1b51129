import B2Compiler.Ts.InternalMethods

/-!
# Property and global caches

The instructions that touch the heap, with feedback recording on or off.  With recording
on, a property or global site keeps a shape with a slot, and a store site a transition;
a hit bypasses the property operations, a miss runs them and installs afterwards.

The rest of a program is a client that sees what each instruction gives and chooses the
next one.  Code that an instruction calls is the client's as well: its instructions come
before the one that resumes the instruction that called it.
-/

namespace B2Compiler.Ts

open Lib

/-! ## Feedback slots -/

/-- A site of the bytecode.  The name a global site stands for is fixed. -/
inductive Site where
  | property (pc : Nat)
  | global (pc : Nat) (name : PropertyKey)
  deriving DecidableEq

/-- A transition that a store site has seen: one link more. -/
structure Transition where
  transFrom : Shape
  added : PropertyKey × PropertyAttrs
  transKey : PropertyKey
  epoch : Nat
  deriving DecidableEq

/-- What the caches read of a feedback slot. -/
structure FeedbackSlot where
  icShape : Option Shape := none
  icSlot : Nat := 0
  icAttrs : PropertyAttrs := {}
  transition : Option Transition := none
  deriving DecidableEq

namespace FeedbackSlot

variable (fs : FeedbackSlot) (o : Object)

/-- The slot of the receiver a hit goes to. -/
def cached : Option Slot :=
  if fs.icShape = some o.shape ∧ o.shape ≠ [] ∧ fs.icAttrs.isAccessor = false then
    match slotAt o.links fs.icSlot with
    | none => none
    | some l => if l.slot = .hole then none else some l.slot
  else none

/-- The transition a store of the key may take. -/
def transitionFor (key : PropertyKey) (epoch : Nat) : Option Transition :=
  match fs.transition with
  | none => none
  | some t =>
    if o.shape = t.transFrom ∧ key = t.transKey ∧ o.extensible = true ∧ t.epoch = epoch then
      some t
    else none

/-- Only an own, live, writable data property is installed. -/
def installPropertyIc (key : PropertyKey) : FeedbackSlot :=
  match ownDataSlotAttrs o.links key with
  | none => fs
  | some (i, attrs) =>
    if attrs.writable then
      { fs with icShape := some o.shape, icSlot := i, icAttrs := attrs }
    else fs

/-- A transition is installed when the receiver's shape is one link more than before;
the first link of an object has the root before it and is not installed. -/
def installTransition (before : Shape) (key : PropertyKey) (epoch : Nat) : FeedbackSlot :=
  match o.shape with
  | [] => fs
  | added :: parent =>
    if parent = before ∧ before ≠ [] then
      { fs with transition := some ⟨before, added, key, epoch⟩ }
    else fs

end FeedbackSlot

inductive Instruction where
  /-- An internal method, as the instructions without a cache and the builtins use it. -/
  | method (m : Method) (v : Value)
  | getProperty (pc : Nat) (recv : Value) (key : PropertyKey)
  | setProperty (pc : Nat) (recv : Value) (key : PropertyKey) (v : Value)
  | loadGlobal (pc : Nat) (name : PropertyKey)
  | storeGlobal (pc : Nat) (name : PropertyKey) (v : Value)
  | defineGlobalVar (name : PropertyKey)
  /-- An element access under a small integer. -/
  | getElement (recv : Value) (idx : ArrayIndex)
  | setElement (recv : Value) (idx : ArrayIndex) (v : Value)
  | newObject
  | newArray
  | newClosure
  | throwError (name : String) (message : List UInt8)
  /-- What an array builtin does to the elements. -/
  | arrayBuiltin (arr : ObjectId) (op : ArrayOp Value)
  /-- The code an instruction called comes back. -/
  | resume (r : Reply)

/-- The element an array builtin takes off, or the length it leaves. -/
def builtinAnswer : OpResult Value → Proc Value
  | .done => pure .undefined
  | .rangeError => rangeError (bytes "Invalid array length")
  | .length n => pure (lengthValue n)
  | .value v => pure (v.getD .undefined)

/-- The instructions without a cache. -/
def Instruction.proc : Instruction → Proc Answer
  | .method m v => m.run v
  | .getProperty _ recv key => .value <$> B2Compiler.Ts.getProperty recv key
  | .setProperty _ recv key v => .bool <$> B2Compiler.Ts.setProperty recv key v
  | .loadGlobal _ name => do
      let global ← read fun s => s.global
      .value <$> B2Compiler.Ts.getProperty (.object global) name
  | .storeGlobal _ name v => do
      let global ← read fun s => s.global
      .bool <$> B2Compiler.Ts.setProperty (.object global) name v
  | .defineGlobalVar name => (fun _ => .value .undefined) <$> perform (.defineGlobalVar name)
  | .getElement recv idx => .value <$> getElementValue recv idx
  | .setElement recv idx v => .bool <$> setElementValue recv idx v
  | .newObject => (fun id => .value (.object id)) <$> perform (.newPlainObject none [])
  | .newArray => (fun id => .value (.object id)) <$> perform .newArray
  | .newClosure => (fun c => .value (.closure c)) <$> perform .newClosure
  | .throwError name message => makeError name message
  | .arrayBuiltin arr op => .value <$> (perform (.array arr op) >>= builtinAnswer)
  | .resume _ => .stuck

/-! ## The machine -/

/-- What is installed once a missed instruction has its result. -/
inductive Install where
  | nothing
  | load (site : Site) (obj : ObjectId) (key : PropertyKey)
  | store (site : Site) (obj : ObjectId) (key : PropertyKey) (before : Shape)
  deriving DecidableEq

/-- An instruction that waits for the code it called. -/
structure Suspended where
  next : Reply → Proc Answer
  install : Install

structure Machine where
  heap : Isolate
  feedback : Site → FeedbackSlot := fun _ => {}
  stack : List Suspended := []

inductive Observation where
  | ret (a : Answer)
  | throw (v : Value)
  | request (q : Request)
  | stuck
  /-- Nothing was called that could come back. -/
  | idle
  deriving DecidableEq

def Install.apply (s : Isolate) (feedback : Site → FeedbackSlot) : Install → Site → FeedbackSlot
  | .nothing => feedback
  | .load site obj key =>
    Function.update feedback site ((feedback site).installPropertyIc (s.objects obj) key)
  | .store site obj key before =>
    Function.update feedback site
      (((feedback site).installPropertyIc (s.objects obj) key).installTransition
        (s.objects obj) before key s.accessorEpoch)

namespace Machine

variable (M : Machine)

/-- Take note of where the procedure of an instruction stopped. -/
def settle (install : Install) : Halt Answer × Isolate → Observation × Machine
  | (.ret a, s) => (.ret a, { M with heap := s, feedback := install.apply s M.feedback })
  | (.throw e, s) => (.throw e, { M with heap := s })
  | (.stuck, s) => (.stuck, { M with heap := s })
  | (.call q next, s) => (.request q, { M with heap := s, stack := ⟨next, install⟩ :: M.stack })

/-- The receiver's slot a property or global site hits. -/
def slotHit (site : Site) (obj : ObjectId) : Option Slot :=
  (M.feedback site).cached (M.heap.objects obj)

def transitionHit (site : Site) (obj : ObjectId) (key : PropertyKey) : Option Transition :=
  (M.feedback site).transitionFor (M.heap.objects obj) key M.heap.accessorEpoch

/-- The heap after a hit of a store. -/
def writeCached (site : Site) (obj : ObjectId) (v : Value) : Isolate :=
  M.heap.setLinks obj (writeSlot (M.heap.objects obj).links (M.feedback site).icSlot (.data v))

/-- The heap after a transition. -/
def takeTransition (obj : ObjectId) (t : Transition) (v : Value) : Isolate :=
  M.heap.pushLink obj ⟨t.added.1, t.added.2, .data v⟩

def loadHit (site : Site) (recv : Value) : Option (Observation × Machine) :=
  match (objectOfValue recv).bind (M.slotHit site) with
  | none => none
  | some (.data v) => some (.ret (.value v), M)
  | some _ => some (.stuck, M)

/-- The shape cache is asked before the transition cache. -/
def storeHit (pc : Nat) (recv : Value) (key : PropertyKey) (v : Value) :
    Option (Observation × Machine) :=
  match objectOfValue recv with
  | none => none
  | some obj =>
    if (M.slotHit (.property pc) obj).isSome then
      some (.ret (.bool true), { M with heap := M.writeCached (.property pc) obj v })
    else
      match M.transitionHit (.property pc) obj key with
      | some t => some (.ret (.bool true), { M with heap := M.takeTransition obj t v })
      | none => none

def storeGlobalHit (pc : Nat) (name : PropertyKey) (v : Value) : Option (Observation × Machine) :=
  let site := Site.global pc name
  if (M.slotHit site M.heap.global).isSome then
    some (.ret (.bool true), { M with heap := M.writeCached site M.heap.global v })
  else none

def hit : Instruction → Option (Observation × Machine)
  | .getProperty pc recv _ => M.loadHit (.property pc) recv
  | .loadGlobal pc name => M.loadHit (.global pc name) (.object M.heap.global)
  | .setProperty pc recv key v => M.storeHit pc recv key v
  | .storeGlobal pc name v => M.storeGlobalHit pc name v
  | _ => none

/-- What an instruction installs after a miss. -/
def install : Instruction → Install
  | .getProperty pc recv key =>
    match objectOfValue recv with
    | none => .nothing
    | some obj => .load (.property pc) obj key
  | .setProperty pc recv key _ =>
    match objectOfValue recv with
    | none => .nothing
    | some obj => .store (.property pc) obj key (M.heap.objects obj).shape
  | .loadGlobal pc name | .storeGlobal pc name _ => .load (.global pc name) M.heap.global name
  | _ => .nothing

/-- An instruction other than `resume` where no site hits. -/
def miss (install : Install) (i : Instruction) : Observation × Machine :=
  M.settle install (i.proc.exec M.heap)

def step (recording : Bool) (i : Instruction) : Observation × Machine :=
  match i with
  | .resume r =>
    match M.stack with
    | [] => (.idle, M)
    | f :: rest => { M with stack := rest }.settle f.install ((f.next r).exec M.heap)
  | i =>
    if recording then (M.hit i).getD (M.miss (M.install i) i)
    else M.miss .nothing i

end Machine

/-- A program, as what it does next after what it has seen, the latest first. -/
abbrev Client : Type := List Observation → Instruction

/-- The first instructions of a client's run, from a heap and empty feedback. -/
def runClient (recording : Bool) (s : Isolate) (client : Client) : Nat → Machine × List Observation
  | 0 => ({ heap := s }, [])
  | n + 1 =>
    let (M, seen) := runClient recording s client n
    let (obs, M') := M.step recording (client seen)
    (M', obs :: seen)

/-- The global object and `{x: 1, y: 2}`. -/
def pointIsolate : Isolate where
  objects id :=
    if id = 1 then
      { links := [⟨nameKey "y", kDefaultDataAttrs, .data (.smi 2)⟩,
          ⟨nameKey "x", kDefaultDataAttrs, .data (.smi 1)⟩] }
    else {}
  allocated := 2
  global := 0
  objectPrototype := 0
  functionPrototype := 0
  arrayPrototype := 0
  accessorEpoch := 0
  doubleToString _ := []

end B2Compiler.Ts
