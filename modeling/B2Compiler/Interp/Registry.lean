import B2Compiler.Interp.Services

/-!
# The class registry over a run

The registry is a bijection between class ids and class names, although fields
share its table and a hostile class name can spell a field key.  Every runtime
service except the marking of a class keeps it so, keeps the ids, names and
initialisation flags of the classes it found, and adds classes uninitialised.
-/

namespace B2Compiler.Interp

open Rbc List

namespace Runtime

/-- A name is registered for an id exactly when the class of that id has it. -/
def Registered (rt : Runtime) : Prop :=
  ∀ (n : String) (c : Nat),
    rt.lookupClass n = some c ↔ ∃ ci : ClassInfo, rt.classes[c]? = some ci ∧ ci.name = n

structure Keeps (rt rt' : Runtime) : Prop where
  registered : rt.Registered → rt'.Registered
  old : ∀ (c : Nat) (ci : ClassInfo), rt.classes[c]? = some ci →
    ∃ ci' : ClassInfo, rt'.classes[c]? = some ci' ∧ ci'.name = ci.name ∧
      ci'.initialized = ci.initialized
  fresh : ∀ (c : Nat) (ci' : ClassInfo), rt'.classes[c]? = some ci' → rt.classes[c]? = none →
    ci'.initialized = false

namespace Keeps

variable {rt rt' rt'' : Runtime}

/-- A service that touches neither the classes nor the table. -/
theorem of_eq (hclasses : rt'.classes = rt.classes) (htable : rt'.classByName = rt.classByName) :
    rt.Keeps rt' where
  registered := by
    intro h n c
    have hlookup : rt'.lookupClass n = rt.lookupClass n := by
      unfold lookupClass
      rw [htable]
    rw [hlookup, hclasses]
    exact h n c
  old c ci h := ⟨ci, by rw [hclasses]; exact h, rfl, rfl⟩
  fresh c ci' h hnone := by
    rw [hclasses, hnone] at h
    cases h

theorem refl (rt : Runtime) : rt.Keeps rt := of_eq rfl rfl

theorem trans (h : rt.Keeps rt') (h' : rt'.Keeps rt'') : rt.Keeps rt'' where
  registered hr := h'.registered (h.registered hr)
  old c ci hc := by
    obtain ⟨ci', hc', hname, hinit⟩ := h.old c ci hc
    obtain ⟨ci'', hc'', hname', hinit'⟩ := h'.old c ci' hc'
    exact ⟨ci'', hc'', hname'.trans hname, hinit'.trans hinit⟩
  fresh c ci'' hc hnone := by
    cases hmid : rt'.classes[c]? with
    | none => exact h'.fresh c ci'' hc hmid
    | some ci' =>
      obtain ⟨ci, hci, _, hinit⟩ := h'.old c ci' hmid
      rw [hc] at hci
      cases hci
      rw [hinit]
      exact h.fresh c ci' hmid hnone

end Keeps

theorem lookupClass_cons {rt : Runtime} {n k : String} {v : Nat} :
    ({ rt with classByName := (k, v) :: rt.classByName } : Runtime).lookupClass n =
      if n = k then (if isFieldRegistryEntry v then none else some (v / 2))
      else rt.lookupClass n := by
  unfold lookupClass
  by_cases h : n = k
  · simp [h]
  · have hne : (n == k) = false := by simpa using h
    simp [lookup_cons, hne, h]

theorem getElem?_append_one {α : Type} (l : List α) (a : α) (c : Nat) :
    (l ++ [a])[c]? = if c = l.length then some a else l[c]? := by
  rcases Nat.lt_trichotomy c l.length with h | h | h
  · rw [getElem?_append_left h, if_neg (by omega)]
  · subst h
    simp
  · rw [if_neg (by omega), getElem?_eq_none (by simp; omega), getElem?_eq_none (by omega)]

variable {ci : ClassInfo} {id : Nat}

theorem keeps_addClass {rt : Runtime} (hinit : ci.initialized = false)
    (hnew : rt.lookupClass ci.name = none) : rt.Keeps (rt.addClass ci).2 where
  registered := by
    intro h n c
    show ({ rt with classByName := (ci.name, 2 * rt.classes.length) :: rt.classByName } :
        Runtime).lookupClass n = some c ↔
      ∃ ci' : ClassInfo, (rt.classes ++ [ci])[c]? = some ci' ∧ ci'.name = n
    have heven : isFieldRegistryEntry (2 * rt.classes.length) = false := by
      simp [isFieldRegistryEntry]
    rw [lookupClass_cons, getElem?_append_one, heven]
    by_cases hn : n = ci.name
    · subst hn
      rw [if_pos rfl, if_neg (by decide), Nat.mul_div_cancel_left _ (by decide)]
      constructor
      · intro hc
        cases hc
        exact ⟨ci, by rw [if_pos rfl], rfl⟩
      rintro ⟨ci', hc, hname⟩
      by_cases hlen : c = rt.classes.length
      · rw [hlen]
      · rw [if_neg hlen] at hc
        rw [(h ci.name c).mpr ⟨ci', hc, hname⟩] at hnew
        cases hnew
    · rw [if_neg hn, h n c]
      constructor
      · rintro ⟨ci', hc, hname⟩
        have hlt := (List.getElem?_eq_some_iff.mp hc).1
        exact ⟨ci', by rw [if_neg (by omega)]; exact hc, hname⟩
      rintro ⟨ci', hc, hname⟩
      by_cases hlen : c = rt.classes.length
      · rw [if_pos hlen] at hc
        cases hc
        exact absurd hname.symm hn
      · rw [if_neg hlen] at hc
        exact ⟨ci', hc, hname⟩
  old c ci' hc := by
    have hlt := (List.getElem?_eq_some_iff.mp hc).1
    refine ⟨ci', ?_, rfl, rfl⟩
    show (rt.classes ++ [ci])[c]? = some ci'
    rw [getElem?_append_one, if_neg (by omega)]
    exact hc
  fresh c ci' hc hnone := by
    have hc' : (rt.classes ++ [ci])[c]? = some ci' := hc
    rw [getElem?_append_one] at hc'
    by_cases hlen : c = rt.classes.length
    · rw [if_pos hlen] at hc'
      cases hc'
      exact hinit
    · rw [if_neg hlen, hnone] at hc'
      cases hc'

/-- Changing a class without touching its name and flag. -/
theorem keeps_setClass {rt : Runtime} (hname : ci.name = (rt.classInfo id).name)
    (hinit : ci.initialized = (rt.classInfo id).initialized) : rt.Keeps (rt.setClass id ci) := by
  have hget : ∀ (c : Nat) (ci' : ClassInfo), rt.classes[c]? = some ci' →
      ∃ ci'' : ClassInfo, (rt.classes.set id ci)[c]? = some ci'' ∧ ci''.name = ci'.name ∧
        ci''.initialized = ci'.initialized := by
    intro c ci' hc
    have hlt := (List.getElem?_eq_some_iff.mp hc).1
    by_cases hid : id = c
    · subst hid
      have hinfo : rt.classInfo id = ci' := by
        unfold classInfo
        rw [getD_eq_getElem?_getD, hc]
        rfl
      rw [hinfo] at hname hinit
      exact ⟨ci, getElem?_set_self hlt, hname, hinit⟩
    · exact ⟨ci', by rw [getElem?_set_ne hid]; exact hc, rfl, rfl⟩
  have hback : ∀ (c : Nat) (ci'' : ClassInfo), (rt.classes.set id ci)[c]? = some ci'' →
      ∃ ci' : ClassInfo, rt.classes[c]? = some ci' := by
    intro c ci'' hc
    have hlt := (List.getElem?_eq_some_iff.mp hc).1
    rw [length_set] at hlt
    exact ⟨_, getElem?_eq_getElem hlt⟩
  constructor
  · intro h n c
    show rt.lookupClass n = some c ↔
      ∃ ci'' : ClassInfo, (rt.classes.set id ci)[c]? = some ci'' ∧ ci''.name = n
    rw [h n c]
    constructor
    · rintro ⟨ci', hc, rfl⟩
      obtain ⟨ci'', hc'', hn, _⟩ := hget c ci' hc
      exact ⟨ci'', hc'', hn⟩
    rintro ⟨ci'', hc, rfl⟩
    obtain ⟨ci', hc'⟩ := hback c ci'' hc
    obtain ⟨ci₂, hc₂, hn, _⟩ := hget c ci' hc'
    rw [hc] at hc₂
    cases hc₂
    exact ⟨ci', hc', hn.symm⟩
  · exact hget
  · intro c ci'' hc hnone
    obtain ⟨ci', hc'⟩ := hback c ci'' hc
    rw [hnone] at hc'
    cases hc'

/-! ## Interning -/

theorem keeps_classId (rt : Runtime) (n : String) : rt.Keeps (rt.classId n).2 := by
  unfold classId
  split
  · exact .refl rt
  · rename_i hnone
    exact keeps_addClass rfl hnone

theorem classId_name {rt : Runtime} (h : rt.Registered) (n : String) :
    ∃ ci : ClassInfo, (rt.classId n).2.classes[(rt.classId n).1]? = some ci ∧ ci.name = n := by
  unfold classId
  split
  · rename_i c hc
    exact (h n c).mp hc
  · exact ⟨{ name := n }, by simp [addClass], rfl⟩

theorem keeps_addField (rt : Runtime) (cid : Nat) (key : String) :
    rt.Keeps (rt.addField cid key).2.2 := by
  have hset : rt.Keeps (rt.setClass cid
      { rt.classInfo cid with fields := (rt.classInfo cid).fields ++ [rt.fieldIndex.length] }) :=
    keeps_setClass rfl rfl
  have hlookup : ∀ n, (rt.addField cid key).2.2.lookupClass n = rt.lookupClass n := by
    intro n
    unfold addField lookupClass
    dsimp only
    by_cases hn : n = key
    · subst hn
      cases hold : rt.classByName.lookup n with
      | none => simp [isFieldRegistryEntry]
      | some v =>
        cases hodd : isFieldRegistryEntry v with
        | false => simp [hold, hodd]
        | true =>
          have hfield : isFieldRegistryEntry (2 * rt.fieldIndex.length + 1) = true := by
            simp [isFieldRegistryEntry]
          simp [hodd, hfield]
    · have hne : (n == key) = false := by simpa using hn
      cases hold : rt.classByName.lookup key with
      | none => simp [lookup_cons, hne]
      | some v =>
        cases hodd : isFieldRegistryEntry v with
        | false => simp [hodd]
        | true => simp [hodd, lookup_cons, hne]
  refine ⟨?_, hset.old, hset.fresh⟩
  intro h n c
  rw [hlookup n]
  exact hset.registered h n c

theorem keeps_resolveField (rt : Runtime) (c : Const) : rt.Keeps (rt.resolveField c).2 := by
  unfold resolveField
  split
  · exact .refl rt
  · dsimp only
    split
    · exact keeps_classId rt c.str
    · exact (keeps_classId rt c.str).trans (keeps_addField _ _ _)

theorem keeps_heap (rt : Runtime) (h : Heap) : rt.Keeps { rt with heap := h } :=
  .of_eq rfl rfl

theorem keeps_markException (rt : Runtime) (cid : Nat) : rt.Keeps (rt.markException cid) := by
  unfold markException
  split
  · exact keeps_setClass rfl rfl
  · exact .refl rt

theorem keeps_primitives : Primitives Keeps where
  refl := .refl
  trans := .trans
  classId := keeps_classId
  resolveField := keeps_resolveField
  markException := keeps_markException
  alloc rt _ _ := keeps_heap rt _
  setSlots rt _ _ _ _ := keeps_heap rt _
  intern rt _ := keeps_heap rt _
  objects _ _ _ := .of_eq rfl rfl
  print _ _ _ := .of_eq rfl rfl
  statics _ _ := .of_eq rfl rfl
  profiles _ _ := .of_eq rfl rfl

theorem resolveField_cls {rt rt' : Runtime} {c : Const} {rf : ResolvedField}
    (hreg : rt.Registered) (h : rt.resolveField c = (some rf, rt')) :
    ∃ ci : ClassInfo, rt'.classes[rf.cls]? = some ci ∧ ci.name = c.str := by
  obtain ⟨ci, hci, hname⟩ := classId_name hreg c.str
  unfold resolveField at h
  split at h
  · cases h
  dsimp only at h
  split at h
  · cases h
    exact ⟨ci, hci, hname⟩
  · cases h
    obtain ⟨ci', hci', hname', _⟩ := (keeps_addField (rt.classId c.str).2 (rt.classId c.str).1
      (fieldRegistryKey c.str c.str2)).old _ ci hci
    exact ⟨ci', hci', hname'.trans hname⟩

/-! ## Initialisation flags -/

/-- Has the initializer of the named class been started? -/
def started (rt : Runtime) (name : String) : Bool :=
  rt.classes.any fun ci => ci.name == name && ci.initialized

theorem started_iff {rt : Runtime} {name : String} : rt.started name = true ↔
      ∃ (c : Nat) (ci : ClassInfo), rt.classes[c]? = some ci ∧ ci.name = name ∧
        ci.initialized = true := by
  unfold started
  rw [any_eq_true]
  constructor
  · rintro ⟨ci, hmem, hci⟩
    obtain ⟨c, hc⟩ := mem_iff_getElem?.mp hmem
    rw [Bool.and_eq_true, beq_iff_eq] at hci
    exact ⟨c, ci, hc, hci.1, hci.2⟩
  · rintro ⟨c, ci, hc, hname, hinit⟩
    exact ⟨ci, mem_of_getElem? hc, by rw [hname, hinit]; simp⟩

/-- Services neither start nor forget an initializer. -/
theorem Keeps.started_eq {rt rt' : Runtime} (h : rt.Keeps rt') (name : String) :
    rt'.started name = rt.started name := by
  rw [Bool.eq_iff_iff, started_iff, started_iff]
  constructor
  · rintro ⟨c, ci', hc, hname, hinit⟩
    cases hold : rt.classes[c]? with
    | none =>
      rw [h.fresh c ci' hc hold] at hinit
      cases hinit
    | some ci =>
      obtain ⟨ci₂, hc₂, hn, hi⟩ := h.old c ci hold
      rw [hc] at hc₂
      cases hc₂
      exact ⟨c, ci, hold, hn.symm.trans hname, hi.symm.trans hinit⟩
  · rintro ⟨c, ci, hc, hname, hinit⟩
    obtain ⟨ci', hc', hn, hi⟩ := h.old c ci hc
    exact ⟨c, ci', hc', hn.trans hname, hi.trans hinit⟩

theorem find_of_needsInit {p : Program} {rt : Runtime} (h : rt.needsInit p id = true) :
    (p.find "<clinit>" "()V").isSome = true := by
  unfold needsInit at h
  split at h
  · cases h
  · split at h
    · cases h
    · exact h

theorem needsInit_iff {p : Program} {rt : Runtime} (hreg : rt.Registered) :
    rt.needsInit p id = true ↔
      (∃ ci : ClassInfo, rt.classes[id]? = some ci ∧ ci.name = p.className) ∧
        rt.started p.className = false ∧ (p.find "<clinit>" "()V").isSome = true := by
  have hinfo : ∀ ci : ClassInfo, rt.classes[id]? = some ci → rt.classInfo id = ci := by
    intro ci hci
    unfold classInfo
    rw [getD_eq_getElem?_getD, hci]
    rfl
  unfold needsInit
  constructor
  · intro h
    split at h
    · cases h
    rename_i hbound
    split at h
    · cases h
    rename_i hname
    have hlt : id < rt.classes.length := by
      by_contra hge
      exact hbound (Or.inl (by omega))
    have hci := getElem?_eq_getElem hlt
    rw [hinfo _ hci] at hbound hname
    have hname' : rt.classes[id].name = p.className := by
      by_contra hne
      exact hname hne
    refine ⟨⟨_, hci, hname'⟩, ?_, h⟩
    by_contra hstarted
    rw [Bool.not_eq_false, started_iff] at hstarted
    obtain ⟨c, ci', hc, hn, hi⟩ := hstarted
    -- the name is registered once, so the started class is this one
    have hid := (hreg p.className id).mpr ⟨_, hci, hname'⟩
    have hc' := (hreg p.className c).mpr ⟨ci', hc, hn⟩
    rw [hid] at hc'
    cases hc'
    rw [hci] at hc
    cases hc
    exact hbound (Or.inr hi)
  · rintro ⟨⟨ci, hci, hname⟩, hstarted, hfind⟩
    have hlt := (List.getElem?_eq_some_iff.mp hci).1
    rw [hinfo ci hci, if_neg, if_neg (by rw [hname]; simp)]
    · exact hfind
    · rintro (hge | hinit)
      · omega
      · have : rt.started p.className = true := started_iff.mpr ⟨id, ci, hci, hname, hinit⟩
        rw [hstarted] at this
        cases this

theorem markInitialized_spec {rt : Runtime} {name : String} (hreg : rt.Registered)
    (hci : rt.classes[id]? = some ci) (hname : ci.name = name) :
    (rt.markInitialized id).Registered ∧ (rt.markInitialized id).started name = true ∧
      ∀ (c : Nat) (ci' : ClassInfo), rt.classes[c]? = some ci' →
        ∃ ci'' : ClassInfo, (rt.markInitialized id).classes[c]? = some ci'' ∧
          ci''.name = ci'.name := by
  have hlt := (List.getElem?_eq_some_iff.mp hci).1
  have hinfo : rt.classInfo id = ci := by
    unfold classInfo
    rw [getD_eq_getElem?_getD, hci]
    rfl
  have hclasses : (rt.markInitialized id).classes =
      rt.classes.set id { ci with initialized := true } := by
    unfold markInitialized
    rw [hinfo]
    rfl
  have hget : ∀ (c : Nat) (ci' : ClassInfo), rt.classes[c]? = some ci' →
      ∃ ci'' : ClassInfo, (rt.markInitialized id).classes[c]? = some ci'' ∧
        ci''.name = ci'.name := by
    intro c ci' hc
    rw [hclasses]
    by_cases hid : id = c
    · subst hid
      rw [hci] at hc
      cases hc
      exact ⟨_, getElem?_set_self hlt, rfl⟩
    · exact ⟨ci', by rw [getElem?_set_ne hid]; exact hc, rfl⟩
  refine ⟨?_, ?_, hget⟩
  · intro n c
    show rt.lookupClass n = some c ↔ _
    rw [hreg n c]
    constructor
    · rintro ⟨ci', hc, rfl⟩
      exact hget c ci' hc
    rintro ⟨ci'', hc, rfl⟩
    have hltc := (List.getElem?_eq_some_iff.mp hc).1
    rw [hclasses, length_set] at hltc
    obtain ⟨ci₂, hc₂, hn⟩ := hget c _ (getElem?_eq_getElem hltc)
    rw [hc] at hc₂
    cases hc₂
    exact ⟨_, getElem?_eq_getElem hltc, hn.symm⟩
  · apply started_iff.mpr
    refine ⟨id, { ci with initialized := true }, ?_, hname, rfl⟩
    rw [hclasses]
    exact getElem?_set_self hlt

theorem registered_empty : ({} : Runtime).Registered := by
  intro n c
  simp [lookupClass]

/-- Registering rows of new names, one after the other. -/
theorem keeps_addRows (rows : List (String × Nat × Bool)) :
    ∀ rt : Runtime, (rows.map Prod.fst).Nodup → (∀ n ∈ rows.map Prod.fst, rt.lookupClass n = none) →
      rt.Keeps (rows.foldl (fun rt row => (rt.addClass
          { name := row.1, superclass := row.2.1, isExceptionClass := row.2.2 }).2) rt) := by
  induction rows with
  | nil => exact fun rt _ _ => .refl rt
  | cons row rows ih =>
    intro rt hnodup hnew
    rw [map_cons, nodup_cons] at hnodup
    refine (keeps_addClass rfl (hnew row.1 (mem_cons_self ..))).trans (ih _ hnodup.2 ?_)
    intro n hn
    have hne : n ≠ row.1 := fun h => hnodup.1 (h ▸ hn)
    show ({ rt with classByName := (row.1, 2 * rt.classes.length) :: rt.classByName } :
      Runtime).lookupClass n = none
    rw [lookupClass_cons, if_neg hne]
    exact hnew n (mem_cons_of_mem _ hn)

/-- A fresh runtime has a registry, and nothing in it is initialised. -/
theorem init_spec (p : Program) (name : String) :
    (init p).Registered ∧ (init p).started name = false := by
  have hrows : ({} : Runtime).Keeps (registerBuiltinClasses {}) :=
    keeps_addRows builtinClasses {} (by decide) (fun n _ => rfl)
  have hinit : ({} : Runtime).Keeps (init p) := hrows.trans (.of_eq rfl rfl)
  refine ⟨hinit.registered registered_empty, ?_⟩
  rw [hinit.started_eq]
  rfl

end Runtime

end B2Compiler.Interp
