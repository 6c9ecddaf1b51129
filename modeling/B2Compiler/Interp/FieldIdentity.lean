import B2Compiler.Interp.FieldRegistry
import B2Compiler.Interp.Monitors

/-!
# Identity of classes and fields

Requests to the registry come in any order.  As long as no class is named by the text of a
field key and no two fields have one key, a table entry belongs to one class or to one field,
a field is resolved to one id and one slot whenever it is asked for, and different fields have
different ids and, within a class, different slots.  A value stored through one reference is
then read back through exactly the references to the same field.
-/

namespace B2Compiler.Interp

open Rbc List

/-! ## Requests and their keys -/

/-- A request to the registry. -/
inductive RegistryCall where
  | classId (internalName : String)
  | resolveField (fieldRef : Const)

/-- Class and name of the field that a constant refers to. -/
def fieldName (c : Const) : String × String := (c.str, c.str2)

/-- Table key of a field. -/
def keyOf (x : String × String) : String := fieldRegistryKey x.1 x.2

namespace RegistryCall

def classes : RegistryCall → List String
  | .classId n => [n]
  | .resolveField c => if c.kind = .fieldRef then [c.str] else []

/-- Fields that a request names. -/
def fields : RegistryCall → List (String × String)
  | .classId _ => []
  | .resolveField c => if c.kind = .fieldRef then [fieldName c] else []

/-- The runtime after a request. -/
def run (rt : Runtime) : RegistryCall → Runtime
  | .classId n => (rt.classId n).2
  | .resolveField c => (rt.resolveField c).2

end RegistryCall

/-- The runtime after a sequence of requests. -/
def register (rt : Runtime) (calls : List RegistryCall) : Runtime :=
  calls.foldl RegistryCall.run rt

/-- No class of the requests is named by the key of a field, and no two fields share a key. -/
structure Separate (calls : List RegistryCall) : Prop where
  apart : ∀ n ∈ calls.flatMap RegistryCall.classes, ∀ x ∈ calls.flatMap RegistryCall.fields,
    n ≠ keyOf x
  inject : ∀ x ∈ calls.flatMap RegistryCall.fields, ∀ y ∈ calls.flatMap RegistryCall.fields,
    keyOf x = keyOf y → x = y

/-- The class of a field is among the classes of its request. -/
theorem cls_mem_of_field {calls : List RegistryCall} {x : String × String}
    (h : x ∈ calls.flatMap RegistryCall.fields) :
    x.1 ∈ calls.flatMap RegistryCall.classes := by
  rw [mem_flatMap] at h ⊢
  obtain ⟨call, hcall, hx⟩ := h
  refine ⟨call, hcall, ?_⟩
  cases call with
  | classId n => cases hx
  | resolveField c =>
    unfold RegistryCall.fields at hx
    unfold RegistryCall.classes
    dsimp only at hx ⊢
    split at hx
    · rename_i hkind
      rw [if_pos hkind]
      rw [mem_singleton] at hx
      subst hx
      exact mem_singleton.mpr rfl
    · cases hx

theorem field_mem {calls : List RegistryCall} {c : Const} (hc : c.kind = .fieldRef)
    (h : RegistryCall.resolveField c ∈ calls) :
    fieldName c ∈ calls.flatMap RegistryCall.fields := by
  rw [mem_flatMap]
  refine ⟨_, h, ?_⟩
  unfold RegistryCall.fields
  dsimp only
  rw [if_pos hc]
  exact mem_singleton.mpr rfl

/-- The key of a field of a plain class determines the field. -/
theorem keyOf_inj {x y : String × String} (hx : plainName x.1 = true) (hy : plainName y.1 = true)
    (h : keyOf x = keyOf y) : x = y := by
  have hcls : x.1 = y.1 := cls_of_fieldRegistryKey hx hy h
  have hlist := congrArg String.toList h
  simp only [keyOf, fieldRegistryKey, String.toList_append, hcls] at hlist
  have hname : x.2.toList = y.2.toList := append_cancel_left hlist
  exact Prod.ext hcls (String.toList_injective hname)

/-- Class names without the separator keep all keys apart, whatever the fields are called. -/
theorem separate_of_plain {calls : List RegistryCall}
    (h : ∀ n ∈ calls.flatMap RegistryCall.classes, plainName n = true) : Separate calls where
  apart n hn x _ heq := by
    have hplain := h n hn
    rw [heq] at hplain
    unfold keyOf at hplain
    rw [plainName_fieldRegistryKey] at hplain
    cases hplain
  inject x hx y hy := keyOf_inj (h _ (cls_mem_of_field hx)) (h _ (cls_mem_of_field hy))

namespace Runtime

/-! ## The registry invariant -/

/-- The registry after requests for fields out of `fields`: every field entry of the table is
that of one field, whose class has the field's id at the field's slot. -/
structure Consistent (fields : List (String × String)) (rt : Runtime) : Prop where
  registered : rt.Registered
  apart : ∀ ci ∈ rt.classes, ∀ x ∈ fields, ci.name ≠ keyOf x
  tabled : ∀ k v, rt.classByName.lookup k = some v → isFieldRegistryEntry v = true →
    ∃ x ∈ fields, ∃ cid slot, k = keyOf x ∧ rt.lookupClass x.1 = some cid ∧
      rt.fieldIndex[v / 2]? = some (cid, slot)
  laid : ∀ fid cid slot : Nat, rt.fieldIndex[fid]? = some (cid, slot) →
    ∃ ci : ClassInfo, rt.classes[cid]? = some ci ∧ ci.fields[slot]? = some fid
  single : ∀ k k' v, isFieldRegistryEntry v = true → rt.classByName.lookup k = some v →
    rt.classByName.lookup k' = some v → k = k'

/-- A field is resolved to an id, a class and a slot. -/
structure Resolved (rt : Runtime) (x : String × String) (rf : ResolvedField) : Prop where
  cls : rt.lookupClass x.1 = some rf.cls
  entry : rt.classByName.lookup (keyOf x) = some (2 * rf.id + 1)
  index : rt.fieldIndex[rf.id]? = some (rf.cls, rf.slot)

section

variable {fields : List (String × String)} {rt : Runtime} {x y : String × String}
  {rf rf' : ResolvedField}

theorem field_entry (fid : Nat) : isFieldRegistryEntry (2 * fid + 1) = true := by
  unfold isFieldRegistryEntry
  exact decide_eq_true (by omega)

theorem class_entry (cid : Nat) : isFieldRegistryEntry (2 * cid) = false := by
  unfold isFieldRegistryEntry
  exact decide_eq_false (by omega)

theorem Resolved.key_eq (h : rt.Consistent fields) (hx : rt.Resolved x rf)
    (hy : rt.Resolved y rf') (hid : rf.id = rf'.id) : keyOf x = keyOf y := by
  have hentry := hy.entry
  rw [← hid] at hentry
  exact h.single _ _ _ (field_entry rf.id) hx.entry hentry

theorem Resolved.unique (hx : rt.Resolved x rf) (hx' : rt.Resolved x rf') :
    rf.id = rf'.id ∧ rf.cls = rf'.cls ∧ rf.slot = rf'.slot := by
  have hentry := hx'.entry
  rw [hx.entry, Option.some.injEq] at hentry
  have hid : rf.id = rf'.id := by omega
  have hindex := hx'.index
  rw [← hid, hx.index, Option.some.injEq, Prod.mk.injEq] at hindex
  exact ⟨hid, hindex⟩

theorem Resolved.id_eq (h : rt.Consistent fields) (hx : rt.Resolved x rf)
    (hy : rt.Resolved y rf') (hcls : rf.cls = rf'.cls) (hslot : rf.slot = rf'.slot) :
    rf.id = rf'.id := by
  obtain ⟨ci, hci, hfid⟩ := h.laid _ _ _ hx.index
  obtain ⟨ci', hci', hfid'⟩ := h.laid _ _ _ hy.index
  rw [← hcls, hci, Option.some.injEq] at hci'
  subst hci'
  rw [← hslot, hfid] at hfid'
  exact Option.some.inj hfid'

theorem Consistent.key_free (h : rt.Consistent fields) (hx : x ∈ fields) :
    rt.lookupClass (keyOf x) = none := by
  cases hlookup : rt.lookupClass (keyOf x) with
  | none => rfl
  | some cid =>
    obtain ⟨ci, hci, hname⟩ := (h.registered _ cid).mp hlookup
    exact absurd hname (h.apart ci (mem_of_getElem? hci) x hx)

variable {cid : Nat}

theorem entry_of_lookupField {fid slot : Nat} {key : String}
    (h : rt.lookupField cid key = some (fid, slot)) :
    rt.classByName.lookup key = some (2 * fid + 1) ∧ rt.fieldIndex[fid]? = some (cid, slot) := by
  unfold lookupField at h
  split at h
  · rename_i v hv
    split at h
    · rename_i hodd
      split at h
      · rename_i c s hindex
        split at h
        · rename_i hsame
          rw [Option.some.injEq, Prod.mk.injEq] at h
          obtain ⟨rfl, rfl⟩ := h
          have hmod : v % 2 = 1 := of_decide_eq_true hodd
          have hv' : 2 * (v / 2) + 1 = v := by omega
          rw [hv', ← hsame]
          exact ⟨hv, hindex⟩
        · cases h
      · cases h
    · cases h
  · cases h

theorem name_of_lookupClass {n n' : String} (hreg : rt.Registered) (h : rt.lookupClass n = some cid)
    (h' : rt.lookupClass n' = some cid) : n = n' := by
  obtain ⟨ci, hci, hname⟩ := (hreg n cid).mp h
  obtain ⟨ci', hci', hname'⟩ := (hreg n' cid).mp h'
  rw [hci, Option.some.injEq] at hci'
  subst hci'
  exact hname.symm.trans hname'

theorem entry_of_lookupClass {n : String} (h : rt.lookupClass n = some cid) :
    ∃ v, rt.classByName.lookup n = some v ∧ isFieldRegistryEntry v = false ∧ v / 2 = cid := by
  unfold lookupClass at h
  split at h
  · rename_i v hv
    split at h
    · cases h
    · rename_i hodd
      exact ⟨v, hv, by simpa using hodd, Option.some.inj h⟩
  · cases h

/-! ## Interning a class -/

theorem classId_cases (rt : Runtime) (n : String) :
    (∃ cid, rt.lookupClass n = some cid ∧ rt.classId n = (cid, rt)) ∨
      rt.lookupClass n = none ∧ rt.classId n = rt.addClass { name := n } := by
  unfold classId
  split
  · rename_i cid hcid
    exact Or.inl ⟨cid, hcid, rfl⟩
  · rename_i hnone
    exact Or.inr ⟨hnone, rfl⟩

theorem lookup_addClass {n k : String} (hne : k ≠ n) :
    (rt.addClass { name := n }).2.classByName.lookup k = rt.classByName.lookup k := by
  have hbeq : (k == n) = false := by simpa using hne
  show ((n, 2 * rt.classes.length) :: rt.classByName).lookup k = _
  rw [lookup_cons, hbeq]

theorem classes_addClass {ci new : ClassInfo} (h : rt.classes[cid]? = some ci) :
    (rt.addClass new).2.classes[cid]? = some ci := by
  show (rt.classes ++ [new])[cid]? = some ci
  rw [List.getElem?_append_left (List.getElem?_eq_some_iff.mp h).1]
  exact h

theorem lookup_of_addClass {n k : String} {v : Nat} (hodd : isFieldRegistryEntry v = true)
    (h : (rt.addClass { name := n }).2.classByName.lookup k = some v) :
    rt.classByName.lookup k = some v := by
  by_cases hkn : k = n
  · subst hkn
    have hself : ((k, 2 * rt.classes.length) :: rt.classByName).lookup k = some v := h
    rw [lookup_cons, beq_self_eq_true] at hself
    have hv : 2 * rt.classes.length = v := Option.some.inj hself
    rw [← hv, class_entry] at hodd
    cases hodd
  · rw [lookup_addClass hkn] at h
    exact h

theorem consistent_classId {n : String} (h : rt.Consistent fields)
    (hn : ∀ x ∈ fields, n ≠ keyOf x) : (rt.classId n).2.Consistent fields := by
  have hkeeps := keeps_classId rt n
  rcases classId_cases rt n with ⟨cid, _, heq⟩ | ⟨_, heq⟩
  · rw [heq]
    exact h
  rw [heq] at hkeeps ⊢
  refine ⟨hkeeps.registered h.registered, ?_, ?_, ?_, ?_⟩
  · intro ci hci x hx
    have hmem : ci ∈ rt.classes ++ [{ name := n }] := hci
    rcases mem_append.mp hmem with hold | hnew
    · exact h.apart ci hold x hx
    · rw [mem_singleton.mp hnew]
      exact hn x hx
  · intro k v hlookup hodd
    obtain ⟨x, hx, cid, slot, hk, hcls, hindex⟩ :=
      h.tabled k v (lookup_of_addClass hodd hlookup) hodd
    exact ⟨x, hx, cid, slot, hk, lookupClass_keeps hkeeps h.registered hcls, hindex⟩
  · intro fid cid slot hindex
    obtain ⟨ci, hci, hfid⟩ := h.laid fid cid slot hindex
    exact ⟨ci, classes_addClass hci, hfid⟩
  · intro k k' v hodd hk hk'
    exact h.single k k' v hodd (lookup_of_addClass hodd hk) (lookup_of_addClass hodd hk')

theorem resolved_classId {n : String} (h : rt.Consistent fields) (hn : n ≠ keyOf x)
    (hx : rt.Resolved x rf) : (rt.classId n).2.Resolved x rf := by
  refine ⟨lookupClass_keeps (keeps_classId rt n) h.registered hx.cls, ?_, ?_⟩
  · rcases classId_cases rt n with ⟨cid, _, heq⟩ | ⟨_, heq⟩
    · rw [heq]
      exact hx.entry
    · rw [heq, lookup_addClass (Ne.symm hn)]
      exact hx.entry
  · rcases classId_cases rt n with ⟨cid, _, heq⟩ | ⟨_, heq⟩
    all_goals
      rw [heq]
      exact hx.index

/-! ## Resolving a field -/

/-- The runtime that `addField` leaves. -/
def withField (rt : Runtime) (cid : Nat) (key : String) : Runtime := (rt.addField cid key).2.2

theorem Consistent.free (h : rt.Consistent fields) (hinj : ∀ y ∈ fields, keyOf x = keyOf y → x = y)
    (hx : x ∈ fields) (hcid : rt.lookupClass x.1 = some cid)
    (hnone : rt.lookupField cid (keyOf x) = none) : rt.classByName.lookup (keyOf x) = none := by
  cases hlookup : rt.classByName.lookup (keyOf x) with
  | none => rfl
  | some v =>
    exfalso
    have hclass := h.key_free hx
    unfold lookupClass at hclass
    unfold lookupField at hnone
    rw [hlookup] at hclass hnone
    dsimp only at hclass hnone
    cases hodd : isFieldRegistryEntry v with
    | false =>
      rw [hodd] at hclass
      cases hclass
    | true =>
      obtain ⟨y, hy, cid', slot, hkey, hcid', hindex⟩ := h.tabled _ v hlookup hodd
      obtain rfl := hinj y hy hkey
      rw [hcid, Option.some.injEq] at hcid'
      subst hcid'
      rw [if_pos hodd, hindex] at hnone
      dsimp only at hnone
      rw [if_pos rfl] at hnone
      cases hnone

theorem withField_self {key : String} (hfree : rt.classByName.lookup key = none) :
    (rt.withField cid key).classByName.lookup key = some (2 * rt.fieldIndex.length + 1) := by
  unfold withField addField
  rw [hfree]
  dsimp only
  rw [if_pos rfl, lookup_cons, beq_self_eq_true]

theorem withField_index {fid : Nat} {key : String} {entry : Nat × Nat}
    (h : rt.fieldIndex[fid]? = some entry) :
    (rt.withField cid key).fieldIndex[fid]? = some entry := by
  show (rt.fieldIndex ++ [(cid, (rt.classInfo cid).fields.length)])[fid]? = some entry
  rw [List.getElem?_append_left (List.getElem?_eq_some_iff.mp h).1]
  exact h

theorem withField_index_self (cid : Nat) (key : String) :
    (rt.withField cid key).fieldIndex[rt.fieldIndex.length]? =
      some (cid, (rt.classInfo cid).fields.length) :=
  getElem?_concat_length

/-- A class after a field was added: its fields are those it had, or those and the new one. -/
theorem withField_class {c : Nat} {key : String} {ci : ClassInfo} (h : rt.classes[c]? = some ci) :
    ∃ added : List Nat, (rt.withField cid key).classes[c]? =
      some { ci with fields := ci.fields ++ added } ∧
      (c = cid → added = [rt.fieldIndex.length]) := by
  have hlt := (List.getElem?_eq_some_iff.mp h).1
  by_cases hc : cid = c
  · subst hc
    have hinfo : rt.classInfo cid = ci := by
      unfold classInfo
      rw [getD_eq_getElem?_getD, h]
      rfl
    refine ⟨[rt.fieldIndex.length], ?_, fun _ => rfl⟩
    show (rt.classes.set cid _)[cid]? = _
    rw [getElem?_set_self hlt, hinfo]
  · refine ⟨[], ?_, fun heq => absurd heq.symm hc⟩
    show (rt.classes.set cid _)[c]? = _
    rw [getElem?_set_ne hc, h, append_nil]

theorem consistent_withField (h : rt.Consistent fields) (hx : x ∈ fields)
    (hcid : rt.lookupClass x.1 = some cid) (hfree : rt.classByName.lookup (keyOf x) = none) :
    (rt.withField cid (keyOf x)).Consistent fields := by
  have hkeeps : rt.Keeps (rt.withField cid (keyOf x)) := keeps_addField rt cid (keyOf x)
  -- an entry other than the new one was there before
  have hold : ∀ k v, (rt.withField cid (keyOf x)).classByName.lookup k = some v →
      k = keyOf x ∧ v = 2 * rt.fieldIndex.length + 1 ∨ rt.classByName.lookup k = some v := by
    intro k v hk
    by_cases hkey : k = keyOf x
    · subst hkey
      rw [withField_self hfree] at hk
      exact Or.inl ⟨rfl, (Option.some.inj hk).symm⟩
    · have hother : (rt.withField cid (keyOf x)).classByName.lookup k = _ := lookup_addField hkey
      rw [hother] at hk
      exact Or.inr hk
  -- the new id is nobody else's
  have hfresh : ∀ k, rt.classByName.lookup k ≠ some (2 * rt.fieldIndex.length + 1) := by
    intro k hk
    obtain ⟨y, _, c, slot, _, _, hindex⟩ := h.tabled k _ hk (field_entry _)
    have hlt := (List.getElem?_eq_some_iff.mp hindex).1
    omega
  refine ⟨hkeeps.registered h.registered, ?_, ?_, ?_, ?_⟩
  · intro ci hci y hy
    obtain ⟨c, hc⟩ := mem_iff_getElem?.mp hci
    have hlt : c < rt.classes.length := by
      have hbound : c < (rt.classes.set cid _).length := (List.getElem?_eq_some_iff.mp hc).1
      rwa [length_set] at hbound
    have hget := getElem?_eq_getElem hlt
    obtain ⟨added, hadded, _⟩ := @withField_class rt cid c (keyOf x) _ hget
    rw [hc, Option.some.injEq] at hadded
    rw [hadded]
    exact h.apart _ (mem_of_getElem? hget) y hy
  · intro k v hk hodd
    rcases hold k v hk with ⟨rfl, rfl⟩ | hk
    · refine ⟨x, hx, cid, (rt.classInfo cid).fields.length, rfl,
        lookupClass_keeps hkeeps h.registered hcid, ?_⟩
      have hhalf : (2 * rt.fieldIndex.length + 1) / 2 = rt.fieldIndex.length := by omega
      rw [hhalf]
      exact withField_index_self cid (keyOf x)
    · obtain ⟨y, hy, c, slot, hkey, hcls, hindex⟩ := h.tabled k v hk hodd
      exact ⟨y, hy, c, slot, hkey, lookupClass_keeps hkeeps h.registered hcls,
        withField_index hindex⟩
  · intro fid c slot hindex
    by_cases hfid : fid = rt.fieldIndex.length
    · subst hfid
      rw [withField_index_self, Option.some.injEq, Prod.mk.injEq] at hindex
      obtain ⟨rfl, rfl⟩ := hindex
      obtain ⟨ci, hci, _⟩ := (h.registered x.1 cid).mp hcid
      obtain ⟨added, hadded, hself⟩ := @withField_class rt cid cid (keyOf x) ci hci
      have hinfo : rt.classInfo cid = ci := by
        unfold classInfo
        rw [getD_eq_getElem?_getD, hci]
        rfl
      refine ⟨_, hadded, ?_⟩
      rw [hself rfl, hinfo]
      exact getElem?_concat_length
    · have hlt : fid < rt.fieldIndex.length := by
        have hbound : fid < (rt.fieldIndex ++ [_]).length := (List.getElem?_eq_some_iff.mp hindex).1
        rw [length_append, length_singleton] at hbound
        omega
      have hindex' : (rt.fieldIndex ++ [_])[fid]? = some (c, slot) := hindex
      rw [getElem?_append_left hlt] at hindex'
      obtain ⟨ci, hci, hslot⟩ := h.laid fid c slot hindex'
      obtain ⟨added, hadded, _⟩ := @withField_class rt cid c (keyOf x) ci hci
      refine ⟨_, hadded, ?_⟩
      show (ci.fields ++ added)[slot]? = some fid
      rw [List.getElem?_append_left (List.getElem?_eq_some_iff.mp hslot).1]
      exact hslot
  · intro k k' v hodd hk hk'
    rcases hold k v hk with ⟨rfl, rfl⟩ | hk
    · rcases hold k' _ hk' with ⟨rfl, _⟩ | hk'
      · rfl
      · exact absurd hk' (hfresh k')
    · rcases hold k' v hk' with ⟨rfl, rfl⟩ | hk'
      · exact absurd hk (hfresh k)
      · exact h.single k k' v hodd hk hk'

theorem resolved_withField (h : rt.Consistent fields)
    (hfree : rt.classByName.lookup (keyOf x) = none) (hy : rt.Resolved y rf) :
    (rt.withField cid (keyOf x)).Resolved y rf := by
  refine ⟨lookupClass_keeps (keeps_addField rt cid (keyOf x)) h.registered hy.cls, ?_,
    withField_index hy.index⟩
  have hne : keyOf y ≠ keyOf x := by
    intro hkey
    have hentry := hy.entry
    rw [hkey, hfree] at hentry
    cases hentry
  exact (lookup_addField hne).trans hy.entry

end

/-! ## Sequences of requests -/

/-- What a request leaves of a consistent registry and of the stores. -/
structure Extends (fields : List (String × String)) (rt rt' : Runtime) : Prop where
  keeps : rt.Keeps rt'
  consistent : rt.Consistent fields → rt'.Consistent fields
  resolved : ∀ y ∈ fields, ∀ rf, rt.Consistent fields → rt.Resolved y rf → rt'.Resolved y rf
  heap : rt'.heap = rt.heap
  statics : ∀ f, rt'.loadStatic f = rt.loadStatic f

namespace Extends

variable {fields : List (String × String)} {rt rt' rt'' : Runtime}

theorem refl (fields : List (String × String)) (rt : Runtime) : rt.Extends fields rt :=
  ⟨.refl rt, fun h => h, fun _ _ _ _ h => h, rfl, fun _ => rfl⟩

theorem trans (h : Extends fields rt rt') (h' : Extends fields rt' rt'') :
    Extends fields rt rt'' where
  keeps := h.keeps.trans h'.keeps
  consistent hc := h'.consistent (h.consistent hc)
  resolved y hy rf hc hres :=
    h'.resolved y hy rf (h.consistent hc) (h.resolved y hy rf hc hres)
  heap := h'.heap.trans h.heap
  statics f := (h'.statics f).trans (h.statics f)

end Extends

variable {fields : List (String × String)} {rt : Runtime} {x : String × String}

theorem extends_classId {n : String} (hn : ∀ y ∈ fields, n ≠ keyOf y) :
    Extends fields rt (rt.classId n).2 where
  keeps := keeps_classId rt n
  consistent h := consistent_classId h hn
  resolved y hy rf h hres := resolved_classId h (hn y hy) hres
  heap := by
    rcases classId_cases rt n with ⟨cid, _, heq⟩ | ⟨_, heq⟩
    · rw [heq]
    · rw [heq]
      rfl
  statics f := by
    rcases classId_cases rt n with ⟨cid, _, heq⟩ | ⟨_, heq⟩
    · rw [heq]
    · rw [heq]
      rfl

/-- A new static slot reads as one that was never written. -/
theorem loadStatic_withField (rt : Runtime) (cid : Nat) (key : String) (f : Nat) :
    (rt.withField cid key).loadStatic f = rt.loadStatic f := by
  show (rt.statics ++ [Value.bottom]).getD f .bottom = rt.statics.getD f .bottom
  rw [getD_eq_getElem?_getD, getD_eq_getElem?_getD, getElem?_append_one]
  by_cases hf : f = rt.statics.length
  · rw [if_pos hf, getElem?_eq_none (by omega)]
    rfl
  · rw [if_neg hf]

/-- Resolving a field of the requests registers it and leaves the rest. -/
theorem resolveField_spec {c : Const} (hc : c.kind = .fieldRef) (h : rt.Consistent fields)
    (hx : fieldName c ∈ fields) (hn : ∀ y ∈ fields, c.str ≠ keyOf y)
    (hinj : ∀ y ∈ fields, keyOf (fieldName c) = keyOf y → fieldName c = y) :
    ∃ rf rt', rt.resolveField c = (some rf, rt') ∧ rf.type = fieldDescriptorType c.str3 ∧
      Extends fields rt rt' ∧ rt'.Resolved (fieldName c) rf := by
  have hcls := @extends_classId fields rt c.str hn
  have hcid := lookupClass_classId h.registered c.str
  unfold resolveField
  rw [if_neg (fun hne => hne hc)]
  generalize rt.classId c.str = interned at hcls hcid ⊢
  obtain ⟨cid, rt₁⟩ := interned
  dsimp only at hcls hcid ⊢
  have h₁ := hcls.consistent h
  cases hfield : rt₁.lookupField cid (fieldRegistryKey c.str c.str2) with
  | some found =>
    obtain ⟨fid, slot⟩ := found
    obtain ⟨hentry, hindex⟩ := entry_of_lookupField hfield
    exact ⟨_, rt₁, rfl, rfl, hcls, hcid, hentry, hindex⟩
  | none =>
    have hfree := h₁.free hinj hx hcid hfield
    refine ⟨_, rt₁.withField cid (keyOf (fieldName c)), rfl, rfl, ?_, ?_⟩
    · refine hcls.trans
        { keeps := keeps_addField rt₁ cid _
          consistent := fun _ => consistent_withField h₁ hx hcid hfree
          resolved := fun y _ rf _ hres => resolved_withField h₁ hfree hres
          heap := rfl
          statics := loadStatic_withField rt₁ cid _ }
    · exact ⟨lookupClass_keeps (keeps_addField rt₁ cid _) h₁.registered hcid,
        withField_self hfree, withField_index_self cid _⟩

section

variable {all : List RegistryCall} (hsep : Separate all)

include hsep

theorem resolve_of_mem {c : Const} (hc : c.kind = .fieldRef)
    (hcall : RegistryCall.resolveField c ∈ all)
    (h : rt.Consistent (all.flatMap RegistryCall.fields)) :
    ∃ rf rt', rt.resolveField c = (some rf, rt') ∧ rf.type = fieldDescriptorType c.str3 ∧
      Extends (all.flatMap RegistryCall.fields) rt rt' ∧ rt'.Resolved (fieldName c) rf := by
  have hx := field_mem hc hcall
  exact resolveField_spec hc h hx (hsep.apart _ (cls_mem_of_field hx)) (hsep.inject _ hx)

theorem extends_run {call : RegistryCall} (hcall : call ∈ all)
    (h : rt.Consistent (all.flatMap RegistryCall.fields)) :
    Extends (all.flatMap RegistryCall.fields) rt (call.run rt) := by
  cases call with
  | classId n =>
    apply extends_classId
    exact hsep.apart n (mem_flatMap.mpr ⟨_, hcall, mem_singleton.mpr rfl⟩)
  | resolveField c =>
    by_cases hc : c.kind = .fieldRef
    · obtain ⟨rf, rt', heq, _, hext, _⟩ := resolve_of_mem hsep hc hcall h
      show Extends _ rt (rt.resolveField c).2
      rw [heq]
      exact hext
    · show Extends _ rt (rt.resolveField c).2
      unfold resolveField
      rw [if_pos hc]
      exact .refl _ rt

theorem extends_register (calls : List RegistryCall) (rt : Runtime)
    (hcalls : ∀ call ∈ calls, call ∈ all)
    (h : rt.Consistent (all.flatMap RegistryCall.fields)) :
    Extends (all.flatMap RegistryCall.fields) rt (register rt calls) := by
  induction calls generalizing rt with
  | nil => exact .refl _ rt
  | cons call rest ih =>
    have hrun := extends_run hsep (hcalls call (mem_cons_self ..)) h
    exact hrun.trans (ih _ (fun later hlater => hcalls later (mem_cons_of_mem _ hlater))
      (hrun.consistent h))

end

/-- Requests keep the classes, whatever their names. -/
theorem keeps_register (calls : List RegistryCall) (rt : Runtime) :
    rt.Keeps (register rt calls) := by
  induction calls generalizing rt with
  | nil => exact .refl rt
  | cons call rest ih =>
    have hrun : rt.Keeps (call.run rt) := by
      cases call with
      | classId n => exact keeps_classId rt n
      | resolveField c => exact keeps_resolveField rt c
    exact hrun.trans (ih _)

theorem entry_init {p : Program} {k : String} {v : Nat}
    (h : (init p).classByName.lookup k = some v) : isFieldRegistryEntry v = false := by
  have heven : ∀ entry ∈ (registerBuiltinClasses {}).classByName,
      isFieldRegistryEntry entry.2 = false := by
    decide +kernel
  obtain ⟨before, after, hsplit, _⟩ := lookup_eq_some_iff.mp h
  apply heven (k, v)
  show (k, v) ∈ (init p).classByName
  rw [hsplit]
  exact mem_append_right _ (mem_cons_self ..)

/-- A fresh runtime has no field entry, and no class of it has a key for a name. -/
theorem consistent_init (p : Program) (fields : List (String × String)) :
    (init p).Consistent fields where
  registered := (init_spec p "").1
  apart ci hci x _ heq := by
    have hplain : ∀ ci ∈ (registerBuiltinClasses {}).classes, plainName ci.name = true := by
      decide +kernel
    have hname := hplain ci hci
    rw [heq] at hname
    unfold keyOf at hname
    rw [plainName_fieldRegistryKey] at hname
    cases hname
  tabled k v hlookup hodd := by
    rw [entry_init hlookup] at hodd
    cases hodd
  laid fid cid slot hindex := by cases hindex
  single k k' v hodd hlookup _ := by
    rw [entry_init hlookup] at hodd
    cases hodd

end Runtime

/-- Growing a vector of values does not change what it reads. -/
theorem getD_growTo (l : List Value) (n k : Nat) :
    (growTo l n).getD k .bottom = l.getD k .bottom := by
  rw [getD_eq_getElem?_getD, getD_eq_getElem?_getD]
  unfold growTo
  by_cases hk : k < l.length
  · rw [getElem?_append_left hk]
  · rw [getElem?_append_right (by omega), getElem?_eq_none (l := l) (by omega)]
    rw [getElem?_replicate]
    split <;> rfl

/-- A written slot reads as written, the others as before. -/
theorem getD_store (l : List Value) (n k : Nat) (v : Value) :
    ((growTo l (n + 1)).set n v).getD k .bottom = if n = k then v else l.getD k .bottom := by
  by_cases hk : n = k
  · subst hk
    have hlen : n < (growTo l (n + 1)).length := by
      unfold growTo
      rw [length_append, length_replicate]
      omega
    rw [if_pos rfl, getD_eq_getElem?_getD, getElem?_set_self hlen]
    rfl
  · rw [if_neg hk, getD_eq_getElem?_getD, getElem?_set_ne hk, ← getD_eq_getElem?_getD, getD_growTo]

theorem loadStatic_storeStatic (rt : Runtime) (f g : Nat) (v : Value) :
    (rt.storeStatic f v).loadStatic g = if f = g then v else rt.loadStatic g :=
  getD_store rt.statics f g v

theorem loadField_fst (h : Heap) (r slot : Nat) : (h.loadField r slot).1 =
      match h.obj r with
      | some o => if o.kind = .inst then o.slots.getD slot .bottom else .bottom
      | none => .bottom := by
  unfold Heap.loadField
  cases h.obj r with
  | none => rfl
  | some o =>
    dsimp only
    split
    · exact getD_growTo o.slots (slot + 1) slot
    · rfl

theorem loadField_storeField {h h' : Heap} {r slot : Nat} {v : Value}
    (hstore : h.storeField r slot v = some h') (r' slot' : Nat) :
    (h'.loadField r' slot').1 =
      if r' = r ∧ slot = slot' then v else (h.loadField r' slot').1 := by
  rw [loadField_fst, loadField_fst]
  unfold Heap.storeField at hstore
  split at hstore
  · rename_i o hobj
    split at hstore
    · rename_i hkind
      cases hstore
      by_cases hr : r' = r
      · subst hr
        rw [Heap.obj_setObj hobj, if_pos rfl, hobj]
        dsimp only
        rw [if_pos hkind, if_pos hkind, getD_store]
        by_cases hslot : slot = slot'
        · rw [if_pos hslot, if_pos ⟨rfl, hslot⟩]
        · rw [if_neg hslot, if_neg (fun hand => hslot hand.2)]
      · rw [Heap.obj_setObj hobj, if_neg hr, if_neg (fun hand => hr hand.1)]
    · cases hstore
  · cases hstore

/-! ## The law -/

structure Identified (c c' : Const) (rf rf' : ResolvedField) (rt : Runtime) : Prop where
  id_iff : rf.id = rf'.id ↔ fieldName c = fieldName c'
  cls_iff : rf.cls = rf'.cls ↔ c.str = c'.str
  slot_iff : c.str = c'.str → (rf.slot = rf'.slot ↔ fieldName c = fieldName c')
  clsEntry : rt.classByName.lookup c'.str = some (2 * rf'.cls)
  fieldEntry : rt.classByName.lookup (keyOf (fieldName c')) = some (2 * rf'.id + 1)

/-- Loads through `c'` after a store through `c`, with further requests in between: of the
static field, and of the field of any object when the references are to one class. -/
structure StoredLaw (rt : Runtime) (between : List RegistryCall) (c c' : Const)
    (rf : ResolvedField) : Prop where
  statics : ∀ v, ∃ rf' rt',
    (register (rt.storeStatic rf.id v) between).resolveField c' = (some rf', rt') ∧
      rt'.loadStatic rf'.id =
        if fieldName c = fieldName c' then v else rt.loadStatic rf'.id
  instances : ∀ r v heap, rt.heap.storeField r rf.slot v = some heap → c.str = c'.str →
    ∃ rf' rt', (register { rt with heap } between).resolveField c' = (some rf', rt') ∧
      ∀ r', (rt'.heap.loadField r' rf'.slot).1 =
        if r' = r ∧ fieldName c = fieldName c' then v
        else (rt.heap.loadField r' rf'.slot).1

section

variable {all between : List RegistryCall} {rt : Runtime} {c c' : Const} {rf : ResolvedField}

/-- Two resolutions, the second on a runtime that extends the first. -/
theorem identified (hsep : Separate all) (hx : fieldName c ∈ all.flatMap RegistryCall.fields)
    (hx' : fieldName c' ∈ all.flatMap RegistryCall.fields) {rf' : ResolvedField}
    (h : rt.Consistent (all.flatMap RegistryCall.fields)) (hres : rt.Resolved (fieldName c) rf)
    (hres' : rt.Resolved (fieldName c') rf') : Identified c c' rf rf' rt where
  id_iff := by
    constructor
    · intro hid
      exact hsep.inject _ hx _ hx' (hres.key_eq h hres' hid)
    · intro heq
      rw [heq] at hres
      exact (hres.unique hres').1
  cls_iff := by
    have hcls : rt.lookupClass c.str = some rf.cls := hres.cls
    have hcls' : rt.lookupClass c'.str = some rf'.cls := hres'.cls
    constructor
    · intro hid
      rw [hid] at hcls
      exact Runtime.name_of_lookupClass h.registered hcls hcls'
    · intro hstr
      rw [hstr, hcls'] at hcls
      exact (Option.some.inj hcls).symm
  slot_iff hstr := by
    have hcls : rf.cls = rf'.cls := by
      have hold : rt.lookupClass c.str = some rf.cls := hres.cls
      rw [hstr] at hold
      exact Option.some.inj (hold.symm.trans hres'.cls)
    constructor
    · intro hslot
      exact hsep.inject _ hx _ hx' (hres.key_eq h hres' (hres.id_eq h hres' hcls hslot))
    · intro heq
      rw [heq] at hres
      exact (hres.unique hres').2.2
  clsEntry := by
    obtain ⟨v, hv, heven, hhalf⟩ := Runtime.entry_of_lookupClass hres'.cls
    have hmod : ¬ v % 2 = 1 := of_decide_eq_false heven
    have hv' : v = 2 * rf'.cls := by omega
    rw [← hv']
    exact hv
  fieldEntry := hres'.entry

variable (hsep : Separate all) (hbetween : ∀ call ∈ between, call ∈ all)
  (hc' : c'.kind = .fieldRef) (hx : fieldName c ∈ all.flatMap RegistryCall.fields)
  (hcall' : RegistryCall.resolveField c' ∈ all)
  (hx' : fieldName c' ∈ all.flatMap RegistryCall.fields)
  (h : rt.Consistent (all.flatMap RegistryCall.fields)) (hres : rt.Resolved (fieldName c) rf)
include hsep hbetween hc' hx hcall' hx' h hres

/-- Further requests and a second resolution, after the first. -/
theorem resolve_later : ∃ rf' rt', (register rt between).resolveField c' = (some rf', rt') ∧
      Identified c c' rf rf' rt' ∧ rt'.heap = rt.heap ∧
      ∀ f, rt'.loadStatic f = rt.loadStatic f := by
  have hreg := Runtime.extends_register hsep between rt hbetween h
  obtain ⟨rf', rt', heq, _, hext, hres'⟩ :=
    Runtime.resolve_of_mem hsep hc' hcall' (hreg.consistent h)
  have hall := hreg.trans hext
  exact ⟨rf', rt', heq,
    identified hsep hx hx' (hall.consistent h) (hall.resolved _ hx rf h hres) hres',
    hall.heap, hall.statics⟩

theorem storedLaw : StoredLaw rt between c c' rf where
  statics v := by
    -- neither the registry nor the resolution looks at the statics
    have hstored : (rt.storeStatic rf.id v).Consistent (all.flatMap RegistryCall.fields) :=
      ⟨h.registered, h.apart, h.tabled, h.laid, h.single⟩
    have hres₁ : (rt.storeStatic rf.id v).Resolved (fieldName c) rf :=
      ⟨hres.cls, hres.entry, hres.index⟩
    obtain ⟨rf', rt', heq, hident, _, hstatics⟩ :=
      resolve_later hsep hbetween hc' hx hcall' hx' hstored hres₁
    refine ⟨rf', rt', heq, ?_⟩
    rw [hstatics, loadStatic_storeStatic]
    by_cases hsame : fieldName c = fieldName c'
    · rw [if_pos hsame, if_pos (hident.id_iff.mpr hsame)]
    · rw [if_neg hsame, if_neg (fun hid => hsame (hident.id_iff.mp hid))]
  instances r v heap hstore hstr := by
    have hstored : ({ rt with heap } : Runtime).Consistent (all.flatMap RegistryCall.fields) :=
      ⟨h.registered, h.apart, h.tabled, h.laid, h.single⟩
    have hres₁ : ({ rt with heap } : Runtime).Resolved (fieldName c) rf :=
      ⟨hres.cls, hres.entry, hres.index⟩
    obtain ⟨rf', rt', heq, hident, hheap, _⟩ :=
      resolve_later hsep hbetween hc' hx hcall' hx' hstored hres₁
    refine ⟨rf', rt', heq, ?_⟩
    intro r'
    rw [hheap]
    show (heap.loadField r' rf'.slot).1 = _
    rw [loadField_storeField hstore]
    have hslot := hident.slot_iff hstr
    by_cases hsame : fieldName c = fieldName c'
    · simp only [hsame, hslot.mpr hsame]
    · have hne : rf.slot ≠ rf'.slot := fun heq => hsame (hslot.mp heq)
      rw [if_neg (fun hand => hne hand.2), if_neg (fun hand => hsame hand.2)]

end

/-- A runtime with any contents of heap and statics and the registry of a fresh one. -/
def startWith (p : Program) (heap : Heap) (statics : List Value) : Runtime :=
  { Runtime.init p with heap, statics }

/-- Classes and fields under any sequence of requests. -/
theorem fieldIdentity (p : Program) (heap : Heap) (statics : List Value)
    (before between : List RegistryCall) :
    (∀ n n', let first := (register (startWith p heap statics) before).classId n
      (first.1 = ((register first.2 between).classId n').1 ↔ n = n')) ∧
    ∀ c c', c.kind = .fieldRef → c'.kind = .fieldRef →
      Separate (before ++ .resolveField c :: (between ++ [.resolveField c'])) →
      ∃ rf rt, (register (startWith p heap statics) before).resolveField c = (some rf, rt) ∧
        (∃ rf' rt', (register rt between).resolveField c' = (some rf', rt') ∧
          Identified c c' rf rf' rt') ∧
        StoredLaw rt between c c' rf := by
  have hstart : ∀ fields, (startWith p heap statics).Consistent fields := by
    intro fields
    have h := Runtime.consistent_init p fields
    exact ⟨h.registered, h.apart, h.tabled, h.laid, h.single⟩
  constructor
  · intro n n' first
    have hreg := (Runtime.keeps_register before (startWith p heap statics)).registered
      (hstart []).registered
    have hreg₁ := (Runtime.keeps_classId _ n).registered hreg
    have hfirst := Runtime.lookupClass_classId hreg n
    have hkeeps := Runtime.keeps_register between first.2
    have hreg₂ := hkeeps.registered hreg₁
    have hlater := Runtime.lookupClass_classId hreg₂ n'
    have hold := Runtime.lookupClass_keeps (hkeeps.trans (Runtime.keeps_classId _ n')) hreg₁ hfirst
    constructor
    · intro hid
      rw [← hid] at hlater
      exact Runtime.name_of_lookupClass ((Runtime.keeps_classId _ n').registered hreg₂) hold hlater
    · rintro rfl
      exact Option.some.inj (hold.symm.trans hlater)
  · intro c c' hc hc' hsep
    generalize hall : before ++ .resolveField c :: (between ++ [.resolveField c']) = all at hsep
    have hcall : RegistryCall.resolveField c ∈ all := by
      rw [← hall]
      simp
    have hcall' : RegistryCall.resolveField c' ∈ all := by
      rw [← hall]
      simp
    have hbefore : ∀ call ∈ before, call ∈ all := by
      intro call hmem
      rw [← hall]
      exact mem_append_left _ hmem
    have hbetween : ∀ call ∈ between, call ∈ all := by
      intro call hmem
      rw [← hall]
      simp [hmem]
    have hreg := Runtime.extends_register hsep before _ hbefore (hstart _)
    have hcons := hreg.consistent (hstart _)
    obtain ⟨rf, rt, heq, _, hext, hres⟩ := Runtime.resolve_of_mem hsep hc hcall hcons
    have hx := field_mem hc hcall
    have hx' := field_mem hc' hcall'
    obtain ⟨rf', rt', heq', hident, _⟩ :=
      resolve_later hsep hbetween hc' hx hcall' hx' (hext.consistent hcons) hres
    exact ⟨rf, rt, heq, ⟨rf', rt', heq', hident⟩,
      storedLaw hsep hbetween hc' hx hcall' hx' (hext.consistent hcons) hres⟩

/-- The field `x` of class `A`, the field `y` of class `B`. -/
def fieldX : Const := { kind := .fieldRef, str := "A", str2 := "x", str3 := "I" }

def fieldY : Const := { kind := .fieldRef, str := "B", str2 := "y", str3 := "I" }

/-- The resolution of `c'` after one of `c` and more requests. -/
def resolveTwice (c : Const) (between : List RegistryCall) (c' : Const) :
    Option ResolvedField × Option ResolvedField :=
  let first := (Runtime.init {}).resolveField c
  (first.1, ((register first.2 between).resolveField c').1)

/-- A class named by the key of a field takes the key over, and the field is resolved to a new
id; fields of two classes are one slot of one object. -/
theorem not_fieldIdentity_hostileName :
    ¬ (∀ c between c' rf rf', c.kind = .fieldRef → c'.kind = .fieldRef →
        resolveTwice c between c' = (some rf, some rf') →
        (rf.id = rf'.id ↔ fieldName c = fieldName c')) ∧
      ¬ (∀ c c' rf rf' r v h h', c.kind = .fieldRef → c'.kind = .fieldRef →
        resolveTwice c [] c' = (some rf, some rf') →
        Heap.storeField h r rf.slot v = some h' →
        ((h'.loadField r rf'.slot).1 = v ↔ fieldName c = fieldName c')) := by
  constructor
  · intro hall
    have hid := hall fieldX [.classId "\x01A\x01x"] fieldX ⟨0, 24, 0, .int⟩ ⟨1, 24, 1, .int⟩ rfl rfl
      (by decide +kernel)
    exact absurd (hid.mpr rfl) (by decide)
  · intro hall
    have hload := hall fieldX fieldY ⟨0, 24, 0, .int⟩ ⟨1, 25, 0, .int⟩ 1 (.intVal 7)
      { objs := [{ slots := [.bottom] }] } { objs := [{ slots := [.intVal 7] }] } rfl rfl
      (by decide +kernel) (by decide +kernel)
    exact absurd (hload.mp (by decide +kernel)) (by decide)

/-- Two fields with the separator in their names, of a class interned by hand. -/
theorem fieldIdentity_separatorNames : ∃ rf rt, (register (startWith {} {} []) []).resolveField
        { kind := .fieldRef, str := "A", str2 := "\x01B\x01x", str3 := "I" } = (some rf, rt) ∧
      (∃ rf' rt', (register rt [.classId "B"]).resolveField fieldY = (some rf', rt') ∧
        Identified { kind := .fieldRef, str := "A", str2 := "\x01B\x01x", str3 := "I" } fieldY
          rf rf' rt') ∧
      StoredLaw rt [.classId "B"]
        { kind := .fieldRef, str := "A", str2 := "\x01B\x01x", str3 := "I" } fieldY rf :=
  (fieldIdentity {} {} [] [] [.classId "B"]).2 _ _ rfl rfl (separate_of_plain (by decide +kernel))

end B2Compiler.Interp
