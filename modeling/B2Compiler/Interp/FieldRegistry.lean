import B2Compiler.Interp.Registry

/-!
# Resolved fields over a run

Fields are registered under keys in the table of the class names, with a control character
between the parts of a key.  As long as no class has that character in its name, a field keeps
the id and the slot it was first resolved to.
-/

namespace B2Compiler.Interp

open Rbc List

/-! ## Keys -/

/-- Is the name free of the separator of the field keys? -/
def plainName (n : String) : Bool := !n.toList.contains '\x01'

theorem takeWhile_key {cls name : List Char} (hcls : '\x01' ∉ cls) :
    (cls ++ '\x01' :: name).takeWhile (· != '\x01') = cls := by
  induction cls with
  | nil => rfl
  | cons c rest ih =>
    rw [mem_cons, not_or] at hcls
    rw [cons_append, takeWhile_cons, if_pos (by simpa using Ne.symm hcls.1),
      ih hcls.2]

/-- Plain class names can be read off their keys. -/
theorem cls_of_fieldRegistryKey {cls cls' name name' : String} (hcls : plainName cls = true)
    (hcls' : plainName cls' = true)
    (h : fieldRegistryKey cls name = fieldRegistryKey cls' name') : cls = cls' := by
  have hmem : '\x01' ∉ cls.toList := by simpa [plainName] using hcls
  have hmem' : '\x01' ∉ cls'.toList := by simpa [plainName] using hcls'
  have hlist := congrArg String.toList h
  simp only [fieldRegistryKey, String.toList_append, append_assoc] at hlist
  have hrest : cls.toList ++ '\x01' :: name.toList = cls'.toList ++ '\x01' :: name'.toList :=
    append_cancel_left hlist
  apply String.toList_injective
  rw [← takeWhile_key hmem, hrest, takeWhile_key hmem']

theorem plainName_fieldRegistryKey (cls name : String) :
    plainName (fieldRegistryKey cls name) = false := by
  simp [plainName, fieldRegistryKey]

namespace Runtime

/-- No class has the separator in its name. -/
def PlainNames (rt : Runtime) : Prop := ∀ ci ∈ rt.classes, plainName ci.name = true

/-- The field of a reference is registered and has slot `x`. -/
def FieldAt (rt : Runtime) (c : Const) (x : Nat) : Prop :=
  c.kind = .fieldRef ∧ ∃ cid fid, rt.lookupClass c.str = some cid ∧
    rt.lookupField cid (fieldRegistryKey c.str c.str2) = some (fid, x)

/-- What a service leaves of the fields resolved before it. -/
structure FieldsKept (rt rt' : Runtime) : Prop where
  registered : rt.Registered → rt'.Registered
  names : ∀ (c : Nat) (ci : ClassInfo), rt.classes[c]? = some ci →
    ∃ ci' : ClassInfo, rt'.classes[c]? = some ci' ∧ ci'.name = ci.name
  fieldAt : ∀ c x, rt.Registered → rt'.PlainNames → rt.FieldAt c x → rt'.FieldAt c x

namespace FieldsKept

variable {rt rt' rt'' : Runtime}

theorem plainNames (h : rt.FieldsKept rt') (hplain : rt'.PlainNames) : rt.PlainNames := by
  intro ci hci
  obtain ⟨i, hi⟩ := mem_iff_getElem?.mp hci
  obtain ⟨ci', hci', hname⟩ := h.names i ci hi
  rw [← hname]
  exact hplain ci' (mem_of_getElem? hci')

theorem trans (h : rt.FieldsKept rt') (h' : rt'.FieldsKept rt'') : rt.FieldsKept rt'' where
  registered hreg := h'.registered (h.registered hreg)
  names c ci hci := by
    obtain ⟨ci', hci', hname⟩ := h.names c ci hci
    obtain ⟨ci'', hci'', hname'⟩ := h'.names c ci' hci'
    exact ⟨ci'', hci'', hname'.trans hname⟩
  fieldAt c x hreg hplain hat :=
    h'.fieldAt c x (h.registered hreg) hplain (h.fieldAt c x hreg (h'.plainNames hplain) hat)

/-- A service that leaves the table of names and the fields alone. -/
theorem of_table (hregistered : rt.Registered → rt'.Registered)
    (hnames : ∀ (c : Nat) (ci : ClassInfo), rt.classes[c]? = some ci →
      ∃ ci' : ClassInfo, rt'.classes[c]? = some ci' ∧ ci'.name = ci.name)
    (htable : rt'.classByName = rt.classByName) (hfields : rt'.fieldIndex = rt.fieldIndex) :
    rt.FieldsKept rt' where
  registered := hregistered
  names := hnames
  fieldAt c x _ _ hat := by
    unfold FieldAt lookupClass lookupField at hat ⊢
    rw [htable, hfields]
    exact hat

theorem of_keeps (hk : rt.Keeps rt') (htable : rt'.classByName = rt.classByName)
    (hfields : rt'.fieldIndex = rt.fieldIndex) : rt.FieldsKept rt' :=
  of_table hk.registered (fun c ci hci => by
    obtain ⟨ci', hci', hname, _⟩ := hk.old c ci hci
    exact ⟨ci', hci', hname⟩) htable hfields

theorem refl (rt : Runtime) : rt.FieldsKept rt := of_keeps (.refl rt) rfl rfl

end FieldsKept

/-! ## The services -/

variable {n : String} {cid : Nat} {c : Const}

theorem plain_of_lookupClass {rt : Runtime} (hreg : rt.Registered) (hplain : rt.PlainNames)
    (h : rt.lookupClass n = some cid) : plainName n = true := by
  obtain ⟨ci, hci, hname⟩ := (hreg n cid).mp h
  rw [← hname]
  exact hplain ci (mem_of_getElem? hci)

theorem lookupClass_keeps {rt rt' : Runtime} (hk : rt.Keeps rt') (hreg : rt.Registered)
    (h : rt.lookupClass n = some cid) : rt'.lookupClass n = some cid := by
  obtain ⟨ci, hci, hname⟩ := (hreg n cid).mp h
  obtain ⟨ci', hci', hname', _⟩ := hk.old cid ci hci
  exact (hk.registered hreg n cid).mpr ⟨ci', hci', hname'.trans hname⟩

theorem lookupField_cons {rt : Runtime} {key k : String} {v : Nat} (hne : key ≠ k) :
    ({ rt with classByName := (k, v) :: rt.classByName } : Runtime).lookupField cid key =
      rt.lookupField cid key := by
  have hbeq : (key == k) = false := by simpa using hne
  unfold lookupField
  simp [lookup_cons, hbeq]

theorem fieldsKept_classId (rt : Runtime) (n : String) : rt.FieldsKept (rt.classId n).2 where
  registered := (keeps_classId rt n).registered
  names c ci hci := by
    obtain ⟨ci', hci', hname, _⟩ := (keeps_classId rt n).old c ci hci
    exact ⟨ci', hci', hname⟩
  fieldAt c x hreg hplain hat := by
    obtain ⟨hkind, cid, fid, hcls, hfield⟩ := hat
    refine ⟨hkind, cid, fid, lookupClass_keeps (keeps_classId rt n) hreg hcls, ?_⟩
    unfold classId at hplain ⊢
    split
    · exact hfield
    rename_i hnone
    rw [hnone] at hplain
    -- a class under the key would not be plain
    have hne : fieldRegistryKey c.str c.str2 ≠ n := by
      rintro rfl
      have hname := hplain { name := fieldRegistryKey c.str c.str2 } (by simp [addClass])
      rw [plainName_fieldRegistryKey] at hname
      cases hname
    rw [← hfield]
    exact lookupField_cons hne

theorem lookup_addField {rt : Runtime} {key k : String} (hne : k ≠ key) :
    (rt.addField cid key).2.2.classByName.lookup k = rt.classByName.lookup k := by
  have hbeq : (k == key) = false := by simpa using hne
  have hcons : ∀ v, lookup k ((key, v) :: rt.classByName) = rt.classByName.lookup k := by
    intro v
    rw [lookup_cons, hbeq]
  unfold addField
  dsimp only
  split
  · exact hcons _
  · split
    · exact hcons _
    · rfl

/-- Appending a field that is not yet registered leaves the others. -/
theorem fieldsKept_addField {rt : Runtime} (hcid : rt.lookupClass c.str = some cid)
    (hnone : rt.lookupField cid (fieldRegistryKey c.str c.str2) = none) :
    rt.FieldsKept (rt.addField cid (fieldRegistryKey c.str c.str2)).2.2 where
  registered := (keeps_addField rt cid _).registered
  names d ci hci := by
    obtain ⟨ci', hci', hname, _⟩ := (keeps_addField rt cid _).old d ci hci
    exact ⟨ci', hci', hname⟩
  fieldAt c' x hreg hplain hat := by
    have hk := keeps_addField rt cid (fieldRegistryKey c.str c.str2)
    obtain ⟨hkind, cid', fid, hcls, hfield⟩ := hat
    have hcls' := lookupClass_keeps hk hreg hcls
    refine ⟨hkind, cid', fid, hcls', ?_⟩
    have hne : fieldRegistryKey c'.str c'.str2 ≠ fieldRegistryKey c.str c.str2 := by
      intro hkey
      have hstr : c'.str = c.str := cls_of_fieldRegistryKey
        (plain_of_lookupClass (hk.registered hreg) hplain hcls')
        (plain_of_lookupClass (hk.registered hreg) hplain (lookupClass_keeps hk hreg hcid)) hkey
      rw [hstr, hcid] at hcls
      cases hcls
      rw [hkey, hnone] at hfield
      cases hfield
    unfold lookupField at hfield ⊢
    rw [lookup_addField hne]
    split at hfield
    · rename_i v _
      split at hfield
      · rename_i hodd
        rw [if_pos hodd]
        split at hfield
        · rename_i entry hentry
          have hlt : v / 2 < rt.fieldIndex.length := (List.getElem?_eq_some_iff.mp hentry).1
          have hkept : (rt.addField cid (fieldRegistryKey c.str c.str2)).2.2.fieldIndex[v / 2]? =
              rt.fieldIndex[v / 2]? := getElem?_append_left hlt
          rw [hkept, hentry]
          exact hfield
        · cases hfield
      · cases hfield
    · cases hfield

theorem classId_of_lookup {rt : Runtime} (h : rt.lookupClass n = some cid) :
    rt.classId n = (cid, rt) := by
  unfold classId
  rw [h]

theorem lookupClass_classId {rt : Runtime} (hreg : rt.Registered) (n : String) :
    (rt.classId n).2.lookupClass n = some (rt.classId n).1 :=
  ((keeps_classId rt n).registered hreg n _).mpr (classId_name hreg n)

theorem fieldsKept_resolveField (rt : Runtime) (c : Const) :
    rt.FieldsKept (rt.resolveField c).2 := by
  unfold resolveField
  split
  · exact .refl rt
  have hcls := fieldsKept_classId rt c.str
  dsimp only
  split
  · exact hcls
  rename_i hnone
  refine ⟨fun hreg => ?_, fun d ci hci => ?_, fun c' x hreg => ?_⟩
  · exact (keeps_addField _ _ _).registered (hcls.registered hreg)
  · obtain ⟨ci₁, hci₁, hname₁⟩ := hcls.names d ci hci
    obtain ⟨ci₂, hci₂, hname₂, _⟩ := (keeps_addField (rt.classId c.str).2
      (rt.classId c.str).1 (fieldRegistryKey c.str c.str2)).old d ci₁ hci₁
    exact ⟨ci₂, hci₂, hname₂.trans hname₁⟩
  · exact (hcls.trans (fieldsKept_addField (lookupClass_classId hreg c.str) hnone)).fieldAt
      c' x hreg

theorem fieldAt_resolveField {rt rt' : Runtime} {rf : ResolvedField} (hreg : rt.Registered)
    (hplain : rt'.PlainNames) (h : rt.resolveField c = (some rf, rt')) : rt'.FieldAt c rf.slot := by
  unfold resolveField at h
  split at h
  · cases h
  rename_i hkind
  have hcid := lookupClass_classId hreg c.str
  have hreg₁ := (keeps_classId rt c.str).registered hreg
  generalize rt.classId c.str = found at h hcid hreg₁
  obtain ⟨cid, rt₁⟩ := found
  dsimp only at h hcid hreg₁
  refine ⟨by simpa using hkind, cid, ?_⟩
  split at h
  · rename_i fid slot hfield
    cases h
    exact ⟨fid, hcid, hfield⟩
  cases h
  have hk := keeps_addField rt₁ cid (fieldRegistryKey c.str c.str2)
  refine ⟨rt₁.fieldIndex.length, lookupClass_keeps hk hreg₁ hcid, ?_⟩
  -- the key can only be taken by a class, whose name would not be plain
  have hentry : (rt₁.addField cid (fieldRegistryKey c.str c.str2)).2.2.classByName.lookup
      (fieldRegistryKey c.str c.str2) = some (2 * rt₁.fieldIndex.length + 1) := by
    unfold addField
    dsimp only
    split
    · simp
    rename_i v hv
    split
    · simp
    rename_i heven
    exfalso
    have hclass : rt₁.lookupClass (fieldRegistryKey c.str c.str2) = some (v / 2) := by
      unfold lookupClass
      rw [hv]
      dsimp only
      rw [if_neg heven]
    have hname := plain_of_lookupClass (hk.registered hreg₁) hplain
      (lookupClass_keeps hk hreg₁ hclass)
    rw [plainName_fieldRegistryKey] at hname
    cases hname
  have hindex : (rt₁.addField cid (fieldRegistryKey c.str c.str2)).2.2.fieldIndex[
      rt₁.fieldIndex.length]? = some (cid, (rt₁.classInfo cid).fields.length) :=
    getElem?_concat_length
  have hodd : isFieldRegistryEntry (2 * rt₁.fieldIndex.length + 1) = true := by
    simp [isFieldRegistryEntry]
  have hhalf : (2 * rt₁.fieldIndex.length + 1) / 2 = rt₁.fieldIndex.length := by omega
  unfold lookupField
  rw [hentry]
  dsimp only
  rw [if_pos hodd, hhalf, hindex]
  dsimp only
  rw [if_pos rfl]
  rfl

theorem resolveField_of_fieldAt {rt : Runtime} {x : Nat} (h : rt.FieldAt c x) :
    (rt.resolveField c).1.map ResolvedField.slot = some x := by
  obtain ⟨hkind, cid, fid, hcls, hfield⟩ := h
  unfold resolveField
  rw [if_neg (by simp [hkind]), classId_of_lookup hcls]
  dsimp only
  rw [hfield]
  rfl

theorem fieldsKept_markException (rt : Runtime) (cid : Nat) :
    rt.FieldsKept (rt.markException cid) := by
  have hk := keeps_markException rt cid
  unfold markException at hk ⊢
  split
  · rename_i h
    rw [if_pos h] at hk
    exact .of_keeps hk rfl rfl
  · exact .refl rt

theorem fieldsKept_heap (rt : Runtime) (h : Heap) : rt.FieldsKept { rt with heap := h } :=
  .of_keeps (keeps_heap rt h) rfl rfl

/-- Every service keeps the fields resolved before it. -/
theorem fieldsKept_primitives : Primitives FieldsKept where
  refl := .refl
  trans := .trans
  classId := fieldsKept_classId
  resolveField := fieldsKept_resolveField
  markException := fieldsKept_markException
  alloc rt _ _ := fieldsKept_heap rt _
  setSlots rt _ _ _ _ := fieldsKept_heap rt _
  intern rt _ := fieldsKept_heap rt _
  objects _ _ _ := .of_keeps (.of_eq rfl rfl) rfl rfl
  print _ _ _ := .of_keeps (.of_eq rfl rfl) rfl rfl
  statics _ _ := .of_keeps (.of_eq rfl rfl) rfl rfl
  profiles _ _ := .of_keeps (.of_eq rfl rfl) rfl rfl

end Runtime

end B2Compiler.Interp
