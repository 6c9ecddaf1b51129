import B2Compiler.Ts.InternalMethods

/-!
# Proxies without traps

What an internal method does on a proxy whose handler has no trap, against what it does
on the target.
-/

namespace B2Compiler.Ts

open Lib

def trapNames : List String :=
  ["get", "set", "has", "deleteProperty", "getPrototypeOf", "setPrototypeOf",
    "getOwnPropertyDescriptor", "defineProperty", "isExtensible", "preventExtensions",
    "ownKeys", "apply", "construct"]

/-- The handler has no such trap: the property reads as undefined. -/
def Untrapped (s : Isolate) (handler : ObjectId) (name : String) : Prop :=
  s.getAlongChain handler (nameKey name) = .value .undefined

/-- The handler defines none of the traps. -/
def NoTraps (s : Isolate) (handler : ObjectId) : Prop :=
  ∀ name ∈ trapNames, Untrapped s handler name

instance (s : Isolate) (handler : ObjectId) (name : String) :
    Decidable (Untrapped s handler name) :=
  inferInstanceAs (Decidable (_ = _))

instance (s : Isolate) (handler : ObjectId) : Decidable (NoTraps s handler) :=
  inferInstanceAs (Decidable (∀ name ∈ trapNames, Untrapped s handler name))

theorem Method.trap_mem (m : Method) : m.trap ∈ trapNames := by
  cases m <;> simp [Method.trap, trapNames]

/-! ## The lookup of a trap -/

section Trap

variable {s : Isolate} {handler : ObjectId} {name : String}

theorem exec_read {β : Type} (f : Isolate → β) (s : Isolate) :
    (read f).exec s = (.ret (f s), s) := rfl

theorem exec_proxyTrap (h : Untrapped s handler name) :
    (proxyTrap handler name).exec s = (.ret none, s) := by
  have hget : s.getAlongChain handler (nameKey name) = .value .undefined := h
  simp [proxyTrap, getObject, exec_read, fetched, hget]

/-- Without a trap the procedure goes on as it does when none is found. -/
theorem exec_untrapped {α : Type} (h : Untrapped s handler name) (f : Option Closure → Proc α) :
    (proxyTrap handler name >>= f).exec s = (f none).exec s := by
  calc (proxyTrap handler name >>= f).exec s
      = Procedure.continueWith HeapOp.run f ((proxyTrap handler name).exec s) :=
        Procedure.exec_bind _ _ _ _
    _ = (f none).exec s := by rw [exec_proxyTrap h]; rfl

/-- Control leaves the procedure before it has a result of its own. -/
def Leaves {α : Type} (p : Proc α) : Prop := ∀ s a t, p.exec s ≠ (.ret a, t)

theorem Leaves.bind {α β : Type} {f : α → Proc β} (p : Proc α) (h : ∀ a, Leaves (f a)) :
    Leaves (p >>= f) := by
  intro s b t hret
  have hbind : (p >>= f).exec s = Procedure.continueWith HeapOp.run f (p.exec s) :=
    Procedure.exec_bind _ _ _ _
  rw [hbind] at hret
  rcases hstop : p.exec s with ⟨stop, u⟩
  rw [hstop] at hret
  cases stop with
  | ret a => exact h a u b t hret
  | throw e | stuck | call q next => simp at hret

theorem leaves_callTrap {α : Type} (c : Closure) (handler : ObjectId) (args : List Value)
    (f : Value → Proc α) : Leaves (callTrap c handler args >>= f) := by
  intro s a t
  simp [callTrap, callClosure, request, Procedure.bind_eq, Procedure.bind, Procedure.exec]

theorem leaves_typeError {α : Type} (message : List UInt8) :
    Leaves (typeError message : Proc α) := by
  intro s a t
  simp [typeError, makeError, perform]

/-- With a trap, or where the lookup of one goes wrong, control leaves the method. -/
theorem exec_trapped {α : Type} (h : ¬ Untrapped s handler name)
    (f : Option Closure → Proc α) (hcall : ∀ c, Leaves (f (some c))) (a : α) (t : Isolate) :
    (proxyTrap handler name >>= f).exec s ≠ (.ret a, t) := by
  have hbind : (proxyTrap handler name >>= f).exec s =
      Procedure.continueWith HeapOp.run f ((proxyTrap handler name).exec s) :=
    Procedure.exec_bind _ _ _ _
  rw [hbind]
  unfold Untrapped at h
  cases hget : s.getAlongChain handler (nameKey name) with
  | getter c => simp [proxyTrap, getObject, exec_read, fetched, hget, callClosure, request,
      Procedure.exec]
  | confused => simp [proxyTrap, getObject, exec_read, fetched, hget]
  | value v =>
    cases v with
    | undefined => exact absurd hget h
    | closure c => simpa [proxyTrap, getObject, exec_read, fetched, hget] using hcall c s a t
    | _ => simp [proxyTrap, getObject, exec_read, fetched, hget, typeError, makeError, perform]

/-- A method that asks for its trap first returns at once only without one. -/
theorem exec_proxyTrap_ret_iff {α : Type} {f : Option Closure → Proc α}
    (hcall : ∀ c, Leaves (f (some c))) (a : α) (t : Isolate) :
    (proxyTrap handler name >>= f).exec s = (.ret a, t) ↔
      Untrapped s handler name ∧ (f none).exec s = (.ret a, t) := by
  by_cases h : Untrapped s handler name
  · rw [exec_untrapped h]
    exact ⟨fun hret => ⟨h, hret⟩, fun hret => hret.2⟩
  · exact ⟨fun hret => absurd hret (exec_trapped h f hcall a t), fun hret => absurd hret.1 h⟩

end Trap

/-! ## Methods that go on with the target -/

section Forwarding

variable {s : Isolate} {id : Nat} {target : Value} {handler : ObjectId}

theorem exec_getProperty_proxy (h : Untrapped s handler "get") (key : PropertyKey) :
    (getProperty (.proxy id target handler) key).exec s = (getProperty target key).exec s := by
  rw [getProperty]
  exact exec_untrapped h _

theorem exec_setProperty_proxy (h : Untrapped s handler "set") (key : PropertyKey)
    (v : Value) : (setProperty (.proxy id target handler) key v).exec s =
      (setProperty target key v).exec s := by
  rw [setProperty]
  exact exec_untrapped h _

theorem exec_hasProperty_proxy (h : Untrapped s handler "has") (key : PropertyKey) :
    (hasProperty (.proxy id target handler) key).exec s = (hasProperty target key).exec s := by
  rw [hasProperty]
  exact exec_untrapped h _

theorem exec_deleteProperty_proxy (h : Untrapped s handler "deleteProperty")
    (key : PropertyKey) : (deleteProperty (.proxy id target handler) key).exec s =
      (deleteProperty target key).exec s := by
  rw [deleteProperty]
  exact exec_untrapped h _

theorem exec_callValue_proxy (h : Untrapped s handler "apply")
    (htarget : target.isCallable = true) (this : Value) (args : List Value) :
    (callValue (.proxy id target handler) this args).exec s =
      (callValue target this args).exec s := by
  rw [callValue]
  simp only [htarget, Bool.not_true, Bool.false_eq_true, if_false]
  exact exec_untrapped h _

theorem exec_constructImpl_proxy (h : Untrapped s handler "construct")
    (htarget : target.isCallable = true) (args : List Value) :
    (constructImpl (.proxy id target handler) args).exec s =
      (constructImpl target args).exec s := by
  rw [constructImpl]
  simp only [htarget, Bool.not_true, Bool.false_eq_true, if_false]
  exact exec_untrapped h _

end Forwarding

/-! ## Methods that ask for the object behind the target -/

/-- The procedure asks for a trap, leaves with one and goes on as `q` without. -/
def Asks {α : Type} (handler : ObjectId) (name : String) (p q : Proc α) : Prop :=
  ∃ f, p = proxyTrap handler name >>= f ∧ f none = q ∧ ∀ c, Leaves (f (some c))

/-- A value that is no proxy, with the object behind it. -/
inductive Plain : Value → ObjectId → Prop where
  | object (o : ObjectId) : Plain (.object o) o
  | closure (c : Closure) : Plain (.closure c) c.asObject

/-- A target is an object, a closure or a proxy. -/
def Value.IsTarget (v : Value) : Prop := v.isObjectLike = true ∨ v.isProxy = true

/-- The condition under which the proxy of a target answers for it. -/
def AgreesBehind (s : Isolate) (name : String) (Blank : Value → Prop) (Direct : ObjectId → Prop) :
    Value → Prop
  | .proxy _ inner handler => Untrapped s handler name ∧ Blank inner
  | target => ∀ o, objectOfValue target = some o → Direct o

section Behind

variable {α : Type} {s : Isolate} {id : Nat} {target : Value} {handler : ObjectId}
  {name : String} {method : Value → Proc α} {blank : α}

/-- Untrapped, the method on a proxy is `onto` the object behind the target.  Behind a proxy
there is none, and the answer is `blank`. -/
theorem agrees_iff (onto : Option ObjectId → Proc α)
    (hasks : ∀ id target handler,
      Asks handler name (method (.proxy id target handler)) (onto (objectOfValue target)))
    (hnone : onto none = .ret blank) {Blank : Value → Prop} {Direct : ObjectId → Prop}
    (hblank : ∀ inner, (onto (objectOfValue inner)).exec s = (.ret blank, s) ↔ Blank inner)
    (hdirect : ∀ v o, Plain v o → ((onto (some o)).exec s = (method v).exec s ↔ Direct o))
    (htarget : target.IsTarget) (h : Untrapped s handler name) :
    (method (.proxy id target handler)).exec s = (method target).exec s ↔
      AgreesBehind s name Blank Direct target := by
  have hproxy : (method (.proxy id target handler)).exec s =
      (onto (objectOfValue target)).exec s := by
    obtain ⟨f, hp, hq, -⟩ := hasks id target handler
    rw [hp, exec_untrapped h, hq]
  rw [hproxy]
  cases target with
  | proxy id' inner handler' =>
    obtain ⟨f, hp, hq, hcall⟩ := hasks id' inner handler'
    show _ ↔ Untrapped s handler' name ∧ Blank inner
    rw [show objectOfValue (.proxy id' inner handler') = none from rfl, hnone, ← hblank, hp, ← hq]
    exact eq_comm.trans (exec_proxyTrap_ret_iff hcall blank s)
  | object o => simpa [AgreesBehind, objectOfValue] using hdirect _ _ (.object o)
  | closure c => simpa [AgreesBehind, objectOfValue] using hdirect _ _ (.closure c)
  | _ => exact htarget.elim nofun nofun

end Behind

theorem prefix_listNames (out names : List Value) : out <+: listNames out names := by
  induction names generalizing out with
  | nil => exact List.prefix_refl out
  | cons k names ih =>
    rw [listNames]
    split
    · exact ih out
    · exact (List.prefix_append out [k]).trans (ih _)

theorem listNames_eq_nil_iff (out names : List Value) :
    listNames out names = [] ↔ out = [] ∧ names = [] := by
  constructor
  · intro h
    have hout : out = [] := List.prefix_nil.mp (h ▸ prefix_listNames out names)
    subst hout
    cases names with
    | nil => exact ⟨rfl, rfl⟩
    | cons k names =>
      have hk : [k] <+: listNames [] (k :: names) := prefix_listNames [k] names
      rw [h] at hk
      simp at hk
  · rintro ⟨rfl, rfl⟩
    rfl

/-- A key listed in front changes nothing when it would have been listed there. -/
theorem listNames_append_eq_iff (out names : List Value) (k : Value) :
    listNames out names = listNames (out ++ [k]) names ↔
      names.find? (fun name => name ∉ out) = some k := by
  induction names with
  | nil => simp [listNames]
  | cons name names ih =>
    by_cases hout : name ∈ out
    · simpa [listNames, hout] using ih
    have hfind : (name :: names).find? (fun name => name ∉ out) = some name := by
      simp [hout]
    rw [hfind]
    by_cases hk : name = k
    · subst hk
      simp [listNames, hout]
    have hnew : name ∉ out ++ [k] := by simp [hout, hk]
    simp only [listNames, hout, hnew, if_false, Option.some.injEq, hk, iff_false]
    intro h
    have hleft : out ++ [name] <+: listNames (out ++ [k] ++ [name]) names :=
      h ▸ prefix_listNames (out ++ [name]) names
    have hright : out ++ [k] <+: listNames (out ++ [k] ++ [name]) names :=
      (List.prefix_append _ _).trans (prefix_listNames _ names)
    have heq : out ++ [name] = out ++ [k] :=
      (List.prefix_of_prefix_length_le hleft hright (by simp)).eq_of_length (by simp)
    simp [hk] at heq

/-! ## When a proxy without traps answers for its target -/

namespace Method

def Blank (s : Isolate) (target : Value) : Method → Prop
  | .getPrototypeOf | .defineProperty .. => objectOfValue target = none
  | .setPrototypeOf proto => ∀ o, objectOfValue target = some o → s.makesCycle o proto = true
  | .getOwnPropertyDescriptor key =>
    ∀ o, objectOfValue target = some o → s.ownDescriptor o key = .absent
  | .isExtensible => ∀ o, objectOfValue target = some o → (s.objects o).extensible = true
  | .preventExtensions => ∀ o, objectOfValue target = some o → (s.objects o).extensible = false
  | .ownKeys => ∀ o, objectOfValue target = some o →
      (s.objects o).indexKeys = [] ∧ (s.objects o).liveNames = []
  | _ => False

/-- The forwarding to an object: the prototype is not read from it, an array is taken
for an ordinary object, and its `length` is not listed. -/
def Direct (s : Isolate) (obj : ObjectId) : Method → Prop
  | .getPrototypeOf => False
  | .preventExtensions => (s.objects obj).array = none
  | .ownKeys => (s.objects obj).array = none ∨
      (s.objects obj).liveNames.find? (fun k => k ∉ (s.objects obj).indexKeys) =
        some lengthKey.keyToValue
  | _ => True

/-- The argument alone decides the answer. -/
def Refused : Method → Prop
  | .setPrototypeOf proto => proto.isObjectLike = false ∧ proto ≠ .null
  | _ => False

/-- When the method does the same on a proxy without traps as on its target. -/
def Forwards (s : Isolate) (target : Value) (m : Method) : Prop :=
  match m with
  | .get _ | .set .. | .has _ | .delete _ => True
  | .call .. | .construct _ => target.isCallable = true
  | m =>
    m.Refused ∨
      match target with
      | .proxy _ inner handler => Untrapped s handler m.trap ∧ m.Blank s inner
      | target => ∀ o, objectOfValue target = some o → m.Direct s o

end Method

/-- The answer for an object, and the one for what is none. -/
@[simp]
def onObject {α : Type} (body : ObjectId → Proc α) (otherwise : α) : Option ObjectId → Proc α
  | some o => body o
  | none => .ret otherwise

section Exact

variable {s : Isolate} {id : Nat} {target : Value} {handler : ObjectId}

theorem getPrototypeOf_agrees_iff (htarget : target.IsTarget)
    (h : Untrapped s handler "getPrototypeOf") :
    (getPrototypeOf (.proxy id target handler)).exec s = (getPrototypeOf target).exec s ↔
      Method.getPrototypeOf.Forwards s target := by
  refine (agrees_iff (fun o => if o.isSome then .stuck else .ret .null)
    (fun id target handler => ⟨_, by rw [getPrototypeOf], ?_, fun c => ?_⟩) rfl (fun v => ?_)
    (fun v o hv => ?_) htarget h).trans (iff_of_eq (false_or _).symm)
  · cases objectOfValue target <;> rfl
  · cases target <;> exact Leaves.bind _ fun targetProto => leaves_callTrap _ _ _ _
  · show _ ↔ objectOfValue v = none
    cases objectOfValue v <;> simp
  · show _ ↔ False
    cases hv <;> simp [getPrototypeOf, objectOfValue, exec_read]

theorem setPrototypeOf_agrees_iff (htarget : target.IsTarget)
    (h : Untrapped s handler "setPrototypeOf") (proto : Value) :
    (setPrototypeOf (.proxy id target handler) proto).exec s =
        (setPrototypeOf target proto).exec s ↔
      (Method.setPrototypeOf proto).Forwards s target := by
  by_cases hproto : proto.isObjectLike = true ∨ proto = .null
  · have hrefused : ¬ (Method.setPrototypeOf proto).Refused := by
      simp only [Method.Refused]
      grind
    have hok : (!proto.isObjectLike && decide (proto ≠ .null)) = false := by
      rcases hproto with hp | hp <;> simp [hp]
    have hforwards : AgreesBehind s "setPrototypeOf" ((Method.setPrototypeOf proto).Blank s)
        ((Method.setPrototypeOf proto).Direct s) target ↔
        (Method.setPrototypeOf proto).Forwards s target := (or_iff_right hrefused).symm
    refine (@agrees_iff _ _ _ _ _ _ (fun v => setPrototypeOf v proto) _
      (onObject (fun o => perform (.setPrototype o proto)) false)
      (fun id target handler => ⟨_, by unfold setPrototypeOf; rw [hok]; rfl, ?_, fun c => ?_⟩)
      rfl _ _ (fun v => ?_) (fun v o hv => ?_) htarget h).trans hforwards
    · cases objectOfValue target <;> rfl
    · exact leaves_callTrap _ _ _ _
    · show _ ↔ ∀ o, objectOfValue v = some o → s.makesCycle o proto = true
      cases objectOfValue v with
      | none => simp
      | some o => cases hcycle : s.makesCycle o proto <;>
          simp [perform, HeapOp.run, Isolate.setPrototype, hcycle]
    · refine iff_of_true ?_ trivial
      unfold setPrototypeOf
      rw [hok]
      cases hv <;> rfl
  · -- Both sides refuse the prototype before they look at the target.
    have hbad : (!proto.isObjectLike && decide (proto ≠ .null)) = true := by
      simp_all
    have hrefused : (Method.setPrototypeOf proto).Refused := by
      simp only [Method.Refused]
      grind
    have hfalse (v : Value) (hv : v.IsTarget) : setPrototypeOf v proto = pure false := by
      unfold setPrototypeOf
      split <;> simp_all
    rw [hfalse _ (.inr rfl), hfalse _ htarget]
    simp [Method.Forwards, hrefused]

theorem getOwnPropertyDescriptor_agrees_iff (htarget : target.IsTarget)
    (h : Untrapped s handler "getOwnPropertyDescriptor") (key : PropertyKey) :
    (getOwnPropertyDescriptor (.proxy id target handler) key).exec s =
        (getOwnPropertyDescriptor target key).exec s ↔
      (Method.getOwnPropertyDescriptor key).Forwards s target := by
  refine (@agrees_iff _ _ _ _ _ _ (fun v => getOwnPropertyDescriptor v key) _
    (onObject (fun o => describedValue <$> describeObject o key) .undefined) (fun id target handler => ⟨_, by unfold getOwnPropertyDescriptor; rfl,
      ?_, fun c => ?_⟩) rfl _ _ (fun v => ?_) (fun v o hv => ?_) htarget h).trans
      (iff_of_eq (false_or _).symm)
  · cases objectOfValue target <;> rfl
  · exact leaves_callTrap _ _ _ _
  · show _ ↔ ∀ o, objectOfValue v = some o → s.ownDescriptor o key = .absent
    cases objectOfValue v with
    | none => simp
    | some o => cases hdesc : s.ownDescriptor o key <;>
        simp [describeObject, exec_read, hdesc, describedValue, perform]
  · exact iff_of_true (by cases hv <;> rfl) trivial

/-- A definition on an object succeeds, throws or gives control away; it does not return
`false`. -/
theorem exec_defineObject_ne_false (o : ObjectId) (key : PropertyKey) (d : PropertyDescriptor)
    (t : Isolate) : (defineObject o key d).exec s ≠ (.ret false, t) := by
  rcases hdef : s.definePropertyDescriptor o key d with ⟨answer, u⟩
  cases answer <;>
    simp [defineObject, perform, HeapOp.run, hdef, typeError, makeError, arraySetLength, request,
      Procedure.bind_eq, Procedure.bind, Procedure.exec, Procedure.perform, Procedure.pure_eq]

theorem defineOwnProperty_agrees_iff (htarget : target.IsTarget)
    (h : Untrapped s handler "defineProperty") (key : PropertyKey) (d : PropertyDescriptor) :
    (defineOwnProperty (.proxy id target handler) key d).exec s =
        (defineOwnProperty target key d).exec s ↔
      (Method.defineProperty key d).Forwards s target := by
  refine (@agrees_iff _ _ _ _ _ _ (fun v => defineOwnProperty v key d) _
    (onObject (fun o => defineObject o key d) false) (fun id target handler => ⟨_, by unfold defineOwnProperty; rfl, ?_,
      fun c => ?_⟩) rfl _ _ (fun v => ?_) (fun v o hv => ?_) htarget h).trans
      (iff_of_eq (false_or _).symm)
  · cases objectOfValue target <;> rfl
  · exact Leaves.bind _ fun desc => leaves_callTrap _ _ _ _
  · show _ ↔ objectOfValue v = none
    cases objectOfValue v with
    | none => simp
    | some o => simpa using exec_defineObject_ne_false o key d s
  · exact iff_of_true (by cases hv <;> rfl) trivial

theorem isExtensible_agrees_iff (htarget : target.IsTarget)
    (h : Untrapped s handler "isExtensible") :
    (isExtensible (.proxy id target handler)).exec s = (isExtensible target).exec s ↔
      Method.isExtensible.Forwards s target := by
  refine (agrees_iff (onObject (fun o => read fun s => (s.objects o).extensible) true)
    (fun id target handler => ⟨_, by unfold isExtensible proxyIsExtensible; rfl, ?_, fun c => ?_⟩)
    rfl (fun v => ?_) (fun v o hv => ?_) htarget h).trans (iff_of_eq (false_or _).symm)
  · cases objectOfValue target <;> rfl
  · exact leaves_callTrap _ _ _ _
  · show _ ↔ ∀ o, objectOfValue v = some o → (s.objects o).extensible = true
    cases objectOfValue v <;> simp [exec_read]
  · exact iff_of_true (by cases hv <;> rfl) trivial

theorem preventExtensions_eq_self_iff (o : ObjectId) :
    s.preventExtensions o = s ↔ (s.objects o).extensible = false := by
  constructor
  · intro h
    have hobj := congrArg (fun u : Isolate => (u.objects o).extensible) h
    simpa [Isolate.preventExtensions, Isolate.update] using hobj.symm
  · intro h
    have hobj : { s.objects o with extensible := false } = s.objects o := by rw [← h]
    simp [Isolate.preventExtensions, Isolate.update, hobj]

/-- The builtin refuses an array, the forwarding does not. -/
theorem preventExtensions_agrees_iff (htarget : target.IsTarget)
    (h : Untrapped s handler "preventExtensions") :
    (preventExtensions (.proxy id target handler)).exec s = (preventExtensions target).exec s ↔
      Method.preventExtensions.Forwards s target := by
  refine (agrees_iff
    (onObject (fun o => perform (.preventExtensions o) >>= fun _ => pure true) true)
    (fun id target handler => ⟨_, by unfold preventExtensions; rfl, ?_, fun c => ?_⟩)
    rfl (fun v => ?_) (fun v o hv => ?_) htarget h).trans (iff_of_eq (false_or _).symm)
  · unfold preventTarget
    cases objectOfValue target <;> rfl
  · exact leaves_callTrap _ _ _ _
  · show _ ↔ ∀ o, objectOfValue v = some o → (s.objects o).extensible = false
    cases objectOfValue v with
    | none => simp
    | some o => simp [perform, HeapOp.run, preventExtensions_eq_self_iff]
  · show _ ↔ (s.objects o).array = none
    obtain ⟨message, hproc⟩ : ∃ message, preventExtensions v =
        ((read fun s => (s.objects o).array.isSome) >>= fun isArray =>
          if isArray = true then typeError message
          else perform (.preventExtensions o) >>= fun _ => pure true) := by
      cases hv <;> exact ⟨_, rfl⟩
    rw [hproc]
    refine (iff_of_eq (congrArg (_ = ·) (Procedure.exec_bind HeapOp.run _ _ _))).trans ?_
    cases harray : (s.objects o).array with
    | none => simp [exec_read, harray]
    | some arr =>
      simp only [exec_read, harray, Procedure.continueWith_ret, Option.isSome_some, if_true,
        reduceCtorEq, iff_false]
      exact fun h => leaves_typeError _ s true _ h.symm

/-- The keys with and without `length`. -/
theorem ownKeysValues_agree_iff (o : ObjectId) :
    s.ownKeysValues o false = s.ownKeysValues o true ↔ Method.ownKeys.Direct s o := by
  unfold Isolate.ownKeysValues Method.Direct
  cases harray : (s.objects o).array with
  | none => simp [harray]
  | some arr => simpa [harray] using listNames_append_eq_iff _ _ _

theorem ownKeys_agrees_iff (htarget : target.IsTarget) (h : Untrapped s handler "ownKeys") :
    (ownKeys (.proxy id target handler)).exec s = (ownKeys target).exec s ↔
      Method.ownKeys.Forwards s target := by
  refine (agrees_iff (onObject (fun o => read fun s => s.ownKeysValues o false) [])
    (fun id target handler => ⟨_, by unfold ownKeys; rfl, ?_, fun c => ?_⟩)
    rfl (fun v => ?_) (fun v o hv => ?_) htarget h).trans (iff_of_eq (false_or _).symm)
  · cases objectOfValue target <;> rfl
  · exact leaves_callTrap _ _ _ _
  · show _ ↔ ∀ o, objectOfValue v = some o →
      (s.objects o).indexKeys = [] ∧ (s.objects o).liveNames = []
    cases objectOfValue v <;>
      simp [exec_read, Isolate.ownKeysValues, listNames_eq_nil_iff]
  · rw [← ownKeysValues_agree_iff]
    cases hv <;> simp [ownKeys, objectOfValue, exec_read]

theorem typeError_injective {α : Type} {m m' : List UInt8}
    (h : (typeError m : Proc α).exec s = (typeError m' : Proc α).exec s) :
    widen m = widen m' := by
  have hlinks := congrArg (fun r : Halt α × Isolate => (r.2.objects s.allocated).links) h
  simpa [typeError, makeError, perform, HeapOp.run, Isolate.newPlainObject, Isolate.alloc,
    Isolate.update, Isolate.dataLinks] using hlinks

theorem callValue_agrees_iff (htarget : target.IsTarget) (h : Untrapped s handler "apply")
    (this : Value) (args : List Value) :
    (callValue (.proxy id target handler) this args).exec s =
        (callValue target this args).exec s ↔ target.isCallable = true := by
  cases hcall : target.isCallable with
  | true => simpa using exec_callValue_proxy h hcall this args
  | false =>
    simp only [Bool.false_eq_true, iff_false]
    cases target with
    | object o =>
      intro heq
      rw [callValue] at heq
      simp only [hcall, Bool.not_false, if_true] at heq
      have hmessage := typeError_injective heq
      rw [show (Value.object o).kindName = "object" from rfl] at hmessage
      exact absurd hmessage (by decide)
    | closure c | proxy id' inner handler' => cases hcall
    | _ => exact htarget.elim nofun nofun

theorem constructImpl_agrees_iff (htarget : target.IsTarget)
    (h : Untrapped s handler "construct") (args : List Value) :
    (constructImpl (.proxy id target handler) args).exec s =
        (constructImpl target args).exec s ↔ target.isCallable = true := by
  cases hcall : target.isCallable with
  | true => simpa using exec_constructImpl_proxy h hcall args
  | false =>
    simp only [Bool.false_eq_true, iff_false]
    cases target with
    | object o =>
      intro heq
      rw [constructImpl] at heq
      simp only [hcall, Bool.not_false, if_true] at heq
      exact absurd (typeError_injective heq) (by decide)
    | closure c | proxy id' inner handler' => cases hcall
    | _ => exact htarget.elim nofun nofun

/-- Exactly when an internal method on a proxy without traps does what it does on the
target. -/
theorem trapless_agrees_iff (s : Isolate) (id : Nat) (target : Value) (handler : ObjectId)
    (htarget : target.IsTarget) (hnone : NoTraps s handler) (m : Method) :
    (m.run (.proxy id target handler)).exec s = (m.run target).exec s ↔ m.Forwards s target := by
  have h : Untrapped s handler m.trap := hnone _ m.trap_mem
  have hvalue : Function.Injective Answer.value := fun _ _ h => Answer.value.inj h
  have hbool : Function.Injective Answer.bool := fun _ _ h => Answer.bool.inj h
  have hkeys : Function.Injective Answer.keys := fun _ _ h => Answer.keys.inj h
  cases m with
  | get key =>
    refine (Procedure.exec_map_inj _ hvalue s).trans ?_
    exact iff_of_true (exec_getProperty_proxy h key) trivial
  | set key v =>
    refine (Procedure.exec_map_inj _ hbool s).trans ?_
    exact iff_of_true (exec_setProperty_proxy h key v) trivial
  | has key =>
    refine (Procedure.exec_map_inj _ hbool s).trans ?_
    exact iff_of_true (exec_hasProperty_proxy h key) trivial
  | delete key =>
    refine (Procedure.exec_map_inj _ hbool s).trans ?_
    exact iff_of_true (exec_deleteProperty_proxy h key) trivial
  | getPrototypeOf =>
    exact (Procedure.exec_map_inj _ hvalue s).trans (getPrototypeOf_agrees_iff htarget h)
  | setPrototypeOf proto =>
    exact (Procedure.exec_map_inj _ hbool s).trans (setPrototypeOf_agrees_iff htarget h proto)
  | getOwnPropertyDescriptor key =>
    exact (Procedure.exec_map_inj _ hvalue s).trans
      (getOwnPropertyDescriptor_agrees_iff htarget h key)
  | defineProperty key d =>
    exact (Procedure.exec_map_inj _ hbool s).trans (defineOwnProperty_agrees_iff htarget h key d)
  | isExtensible =>
    exact (Procedure.exec_map_inj _ hbool s).trans (isExtensible_agrees_iff htarget h)
  | preventExtensions =>
    exact (Procedure.exec_map_inj _ hbool s).trans (preventExtensions_agrees_iff htarget h)
  | ownKeys => exact (Procedure.exec_map_inj _ hkeys s).trans (ownKeys_agrees_iff htarget h)
  | call this args =>
    exact (Procedure.exec_map_inj _ hvalue s).trans (callValue_agrees_iff htarget h this args)
  | construct args =>
    exact (Procedure.exec_map_inj _ hvalue s).trans (constructImpl_agrees_iff htarget h args)

end Exact

/-! ## Nested proxies -/

/-- Proxies without traps around a value, to any depth. -/
inductive Wraps (s : Isolate) (v : Value) : Value → Prop where
  | value : Wraps s v v
  | proxy {w : Value} (id : Nat) (handler : ObjectId) (hw : Wraps s v w)
      (hnone : NoTraps s handler) : Wraps s v (.proxy id w handler)

/-- The methods that go on with the target. -/
def Method.GoesOn (v : Value) : Method → Prop
  | .get _ | .set .. | .has _ | .delete _ => True
  | .call .. | .construct _ => v.isCallable = true
  | _ => False

/-- What is around a target is a target, and can be called where the target can. -/
theorem Wraps.isTarget {s : Isolate} {v w : Value} (hw : Wraps s v w) (hv : v.IsTarget) :
    w.IsTarget ∧ (v.isCallable = true → w.isCallable = true) := by
  cases hw with
  | value => exact ⟨hv, id⟩
  | proxy id handler hw hnone => exact ⟨.inr rfl, fun _ => rfl⟩

/-- Those methods reach the innermost target, whatever the depth. -/
theorem exec_wrapped {s : Isolate} {v w : Value} (hw : Wraps s v w) (hv : v.IsTarget)
    (m : Method) (hm : m.GoesOn v) : (m.run w).exec s = (m.run v).exec s := by
  induction hw with
  | value => rfl
  | @proxy w id handler hw hnone ih =>
    obtain ⟨htarget, hcall⟩ := hw.isTarget hv
    have hforwards : m.Forwards s w := by
      cases m with
      | call this args | construct args => exact hcall hm
      | get key | set key v | has key | delete key => trivial
      | _ => exact False.elim hm
    exact ((trapless_agrees_iff s id w handler htarget hnone m).mpr hforwards).trans ih

/-- Proxies without traps are transparent for the methods that go on with the target, at
every depth, and for the others exactly under the condition of one layer. -/
theorem trapless_transparent_iff (s : Isolate) (target : Value) (htarget : target.IsTarget) :
    (∀ id handler, NoTraps s handler → ∀ m : Method,
      ((m.run (.proxy id target handler)).exec s = (m.run target).exec s ↔ m.Forwards s target)) ∧
    ∀ w, Wraps s target w → ∀ m : Method, m.GoesOn target →
      (m.run w).exec s = (m.run target).exec s :=
  ⟨fun id handler hnone m => trapless_agrees_iff s id target handler htarget hnone m,
    fun _ hw m hm => exec_wrapped hw htarget m hm⟩

/-- `{x: 1}` as object 0, two empty handlers and their prototype. -/
def wrappedIsolate : Isolate where
  objects id :=
    if id = 0 then
      { links := [⟨nameKey "x", kDefaultDataAttrs, .data (.smi 1)⟩], proto := .object 3 }
    else if id < 3 then { proto := .object 3 }
    else {}
  allocated := 4
  global := 3
  objectPrototype := 3
  functionPrototype := 3
  arrayPrototype := 3
  accessorEpoch := 0
  doubleToString _ := []

theorem trapless_transparent_get :
    (Method.run (.proxy 0 (.object 0) 1) (.get (nameKey "x"))).exec wrappedIsolate =
      (Method.run (.object 0) (.get (nameKey "x"))).exec wrappedIsolate :=
  ((trapless_transparent_iff wrappedIsolate (.object 0) (.inl rfl)).1 0 1 (by decide)
    (.get (nameKey "x"))).mpr trivial

/-- A proxy of a proxy of `{x: 1}` lists no key; the inner proxy lists `x`. -/
theorem nestedProxy_hides_keys : NoTraps wrappedIsolate 1 ∧ NoTraps wrappedIsolate 2 ∧
      (Method.run (.proxy 1 (.proxy 0 (.object 0) 1) 2) .ownKeys).exec wrappedIsolate ≠
        (Method.run (.proxy 0 (.object 0) 1) .ownKeys).exec wrappedIsolate := by
  refine ⟨by decide, by decide, fun h => ?_⟩
  have hkeys := congrArg (fun r : Halt Answer × Isolate =>
    match r.1 with
    | .ret a => some a
    | _ => none) h
  exact absurd hkeys (by decide)

end B2Compiler.Ts
