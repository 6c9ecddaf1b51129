import B2Compiler.Ts.Properties

/-!
# What an operation does to the heap

For each operation the ways it can come out, with the heap it leaves, and from these the
two facts about every heap: a slot holds what the attributes of its link promise, and an
array has no link under a key that its elements or its length answer for.
-/

namespace B2Compiler.Ts

/-! ## Live properties -/

structure DataAt (links : List Link) (key : PropertyKey) (i : Nat) (l : Link) (v : Value) :
    Prop where
  find : findOwnSlot links key = some i
  link : ownLink links key = some l
  slot : l.slot = .data v
  attrs : l.attrs.isAccessor = false

section Live

variable {links : List Link} {key : PropertyKey} {i : Nat} {l : Link} {v : Value}

theorem own_eq_data_iff :
    l.own = some (.data v) ↔ l.slot = .data v ∧ l.attrs.isAccessor = false := by
  unfold Link.own
  cases l.slot <;> cases l.attrs.isAccessor <;> simp

theorem findOwnSlot_of_ownLink (h : ownLink links key = some l) :
    ∃ i, findOwnSlot links key = some i := by
  cases hfind : findOwnSlot links key with
  | none => simp [ownLink, hfind] at h
  | some i => exact ⟨i, rfl⟩

theorem dataAt_of_lookup (h : lookupOwnProperty links key = some (.data v)) :
    ∃ i l, DataAt links key i l v := by
  unfold lookupOwnProperty at h
  cases hlink : ownLink links key with
  | none => simp [hlink] at h
  | some l =>
    rw [hlink] at h
    obtain ⟨hslot, hattrs⟩ := own_eq_data_iff.mp h
    obtain ⟨i, hfind⟩ := findOwnSlot_of_ownLink hlink
    exact ⟨i, l, hfind, hlink, hslot, hattrs⟩

theorem DataAt.lookup (h : DataAt links key i l v) :
    lookupOwnProperty links key = some (.data v) := by
  simp [lookupOwnProperty, h.link, own_eq_data_iff, h.slot, h.attrs]

theorem DataAt.slotAt (h : DataAt links key i l v) : slotAt links i = some l := by
  rw [slotAt_findOwnSlot h.find, h.link]

theorem DataAt.attrs_eq (h : DataAt links key i l v) :
    ownDataSlotAttrs links key = some (i, l.attrs) := by
  simp [ownDataSlotAttrs, h.find, h.slotAt, h.slot, h.attrs]

/-- An own data slot with attributes is a live data property of a typed object, or holds
something else under data attributes. -/
theorem ownDataSlotAttrs_eq_some {a : PropertyAttrs}
    (h : ownDataSlotAttrs links key = some (i, a)) :
    ∃ l, findOwnSlot links key = some i ∧ ownLink links key = some l ∧ l.attrs = a ∧
      l.slot ≠ .hole ∧ a.isAccessor = false := by
  unfold ownDataSlotAttrs at h
  cases hfind : findOwnSlot links key with
  | none => simp [hfind] at h
  | some j =>
    cases hat : Ts.slotAt links j with
    | none => simp [hfind, hat] at h
    | some l =>
      simp only [hfind, hat] at h
      split at h
      · cases h
      · rename_i hlive
        cases h
        rw [not_or] at hlive
        refine ⟨l, rfl, ?_, rfl, hlive.1, by simpa using hlive.2⟩
        rw [← slotAt_findOwnSlot hfind, hat]

end Live

/-- What a definition puts in the slot. -/
def PropertyDescriptor.slot (d : PropertyDescriptor) : Slot :=
  if d.isAccessor then .accessor d.getter d.setter else .data d.stored

/-! ## Stores, definitions and deletions, case by case -/

namespace Isolate

variable {s : Isolate}

@[simp] theorem objects_update (id : ObjectId) (o : Object) (id' : ObjectId) :
    (s.update id o).objects id' = if id' = id then o else s.objects id' := by
  simp [update, Function.update_apply]

@[simp] theorem objects_alloc (o : Object) (id : ObjectId) :
    (s.alloc o).2.objects id = if id = s.allocated then o else s.objects id :=
  objects_update ..

theorem chain_cons (hpos : 0 < s.allocated) (obj : ObjectId) :
    ∃ rest, s.chain obj = obj :: rest := by
  unfold chain
  obtain ⟨n, hn⟩ := Nat.exists_eq_succ_of_ne_zero (Nat.ne_of_gt hpos)
  rw [hn]
  exact ⟨_, rfl⟩

theorem lookupProperty_own {start id : ObjectId} {key : PropertyKey} {own : Own}
    (h : s.lookupProperty start key = some (id, own)) :
    lookupOwnProperty (s.objects id).links key = some own := by
  unfold lookupProperty at h
  obtain ⟨id', -, hfound⟩ := List.exists_of_findSome?_eq_some h
  cases hown : lookupOwnProperty (s.objects id').links key with
  | none => simp [hown] at hfound
  | some own' =>
    simp only [hown, Option.map_some, Option.some.injEq, Prod.mk.injEq] at hfound
    obtain ⟨rfl, rfl⟩ := hfound
    exact hown

/-- An own live property is what a lookup finds. -/
theorem lookupProperty_start (hpos : 0 < s.allocated) {start : ObjectId} {key : PropertyKey}
    {own : Own} (h : lookupOwnProperty (s.objects start).links key = some own) :
    s.lookupProperty start key = some (start, own) := by
  obtain ⟨rest, hchain⟩ := chain_cons hpos start
  simp [lookupProperty, hchain, h]

/-- A store under the key goes on to define an own property: nothing is found, or the
data property of another object. -/
def defines (s : Isolate) (start : ObjectId) (key : PropertyKey) : Bool :=
  match s.lookupProperty start key with
  | none => true
  | some (holder, .data _) => holder ≠ start
  | some _ => false

theorem setAlongChain_of_defines {start : ObjectId} {key : PropertyKey}
    (h : s.defines start key = true) (v : Value) :
    s.setAlongChain start key v = (.wrote, s.defineProperty start key v) := by
  unfold defines at h
  unfold setAlongChain storeAlongChain
  cases hfound : s.lookupProperty start key with
  | none => rfl
  | some found =>
    obtain ⟨holder, own⟩ := found
    cases own with
    | data w =>
      have hne : holder ≠ start := by simpa [hfound] using h
      simp [hne]
    | accessor getter setter | confused => simp [hfound] at h

theorem lookupOwnProperty_of_defines (hpos : 0 < s.allocated) {start : ObjectId}
    {key : PropertyKey} (h : s.defines start key = true) :
    lookupOwnProperty (s.objects start).links key = none := by
  cases hown : lookupOwnProperty (s.objects start).links key with
  | none => rfl
  | some own =>
    unfold defines at h
    rw [lookupProperty_start hpos hown] at h
    cases own <;> simp at h

/-- A store defines a property, writes the slot of a live data property, or leaves the
heap alone. -/
theorem storeAlongChain_cases {honorWritable : Bool} {start : ObjectId} {key : PropertyKey}
    {v : Value} {answer : StoreAnswer} {s' : Isolate}
    (h : s.storeAlongChain honorWritable start key v = (answer, s')) :
    (answer ≠ .wrote ∧ s' = s) ∨ (s.defines start key = true ∧ s' = s.defineProperty start key v) ∨
      ∃ i l v₀, DataAt (s.objects start).links key i l v₀ ∧
        (honorWritable = true → l.attrs.writable = true) ∧
        s' = s.setLinks start (writeSlot (s.objects start).links i (.data v)) := by
  unfold storeAlongChain at h
  unfold defines
  cases hlook : s.lookupProperty start key with
  | none =>
    simp only [hlook] at h
    cases h
    exact Or.inr (Or.inl ⟨rfl, rfl⟩)
  | some found =>
    obtain ⟨holder, own⟩ := found
    cases own with
    | confused =>
      simp only [hlook] at h
      cases h
      exact Or.inl ⟨nofun, rfl⟩
    | accessor getter setter =>
      cases setter <;>
        (simp only [hlook] at h
         cases h
         exact Or.inl ⟨nofun, rfl⟩)
    | data v₀ =>
      simp only [hlook] at h
      by_cases hholder : holder = start
      · subst hholder
        obtain ⟨i, l, hdata⟩ := dataAt_of_lookup (lookupProperty_own hlook)
        simp only [ne_eq, not_true_eq_false, if_false, isReadOnly, hdata.attrs_eq,
          writeOwn, hdata.find] at h
        split at h
        · cases h
          exact Or.inl ⟨nofun, rfl⟩
        · rename_i hread
          cases h
          exact Or.inr (Or.inr ⟨i, l, v₀, hdata, by simpa using hread, rfl⟩)
      · simp only [ne_eq, hholder, not_false_eq_true, if_true] at h
        cases h
        exact Or.inr (Or.inl ⟨by simpa using hholder, rfl⟩)

theorem defineProperty_cases (obj : ObjectId) (key : PropertyKey) (v : Value) :
    (∃ arr arr', (s.objects obj).array = some arr ∧
      s.defineProperty obj key v = s.setArray obj arr') ∨
    s.defineProperty obj key v = s ∨
    (((s.objects obj).array ≠ none → key ≠ lengthKey ∧ arrayIndexFromKey key = none) ∧
      s.defineProperty obj key v = s.pushLink obj ⟨key, kDefaultDataAttrs, .data v⟩) := by
  unfold defineProperty
  cases harray : (s.objects obj).array with
  | none => simp
  | some arr =>
    cases hidx : arrayIndexFromKey key with
    | some idx => exact Or.inl ⟨arr, _, rfl, rfl⟩
    | none =>
      by_cases hkey : key = lengthKey
      · simp [hkey]
      · simp [hkey]

/-- A deletion makes a hole of a live slot, takes an element, or leaves the heap alone. -/
theorem deleteOwn_cases {obj : ObjectId} {key : PropertyKey} {answer : Bool} {s' : Isolate}
    (h : s.deleteOwn obj key = (answer, s')) :
    s' = s ∨
    (∃ arr arr', (s.objects obj).array = some arr ∧ s' = s.setArray obj arr') ∨
    ∃ i l, findOwnSlot (s.objects obj).links key = some i ∧
      ownLink (s.objects obj).links key = some l ∧ l.slot ≠ .hole ∧
      s' = s.setLinks obj (writeSlot (s.objects obj).links i .hole) := by
  have hnamed (hn : s.deleteNamed obj key = (answer, s')) : s' = s ∨
      ∃ i l, findOwnSlot (s.objects obj).links key = some i ∧
        ownLink (s.objects obj).links key = some l ∧ l.slot ≠ .hole ∧
        s' = s.setLinks obj (writeSlot (s.objects obj).links i .hole) := by
    unfold deleteNamed at hn
    cases hlink : ownLink (s.objects obj).links key with
    | none => simp_all
    | some l =>
      obtain ⟨i, hfind⟩ := findOwnSlot_of_ownLink hlink
      simp only [hlink, writeOwn, hfind] at hn
      split at hn
      · cases hn
        exact Or.inl rfl
      · rename_i hlive
        cases hn
        exact Or.inr ⟨i, l, hfind, rfl, hlive, rfl⟩
  unfold deleteOwn at h
  cases harray : (s.objects obj).array with
  | none =>
    rw [harray] at h
    exact (hnamed h).imp_right Or.inr
  | some arr =>
    simp only [harray] at h
    split at h
    · cases h
      exact Or.inl rfl
    · split at h
      · cases h
        exact Or.inr (Or.inl ⟨arr, _, rfl, rfl⟩)
      · exact (hnamed h).imp_right Or.inr

/-- The heap but for the epoch of accessor definitions. -/
def withEpoch (s : Isolate) (e : Nat) : Isolate := { s with accessorEpoch := e }

@[simp] theorem objects_withEpoch (e : Nat) : (s.withEpoch e).objects = s.objects := rfl

/-- The ways the definition of a name changes the heap: a new link over what was there,
or the slot of a link with the attributes asked for. -/
def Redefines (s : Isolate) (obj : ObjectId) (key : PropertyKey) (d : PropertyDescriptor)
    (s' : Isolate) : Prop :=
  ∃ e, (s' = (s.pushLink obj ⟨key, d.attrs, d.slot⟩).withEpoch e ∧
      ∀ i l v, DataAt (s.objects obj).links key i l v → l.attrs = d.attrs →
        l.attrs.writable = false ∧ (d.hasValue = true → v.sameValue d.value = true)) ∨
    ∃ i l, findOwnSlot (s.objects obj).links key = some i ∧
      ownLink (s.objects obj).links key = some l ∧ l.slot ≠ .hole ∧ l.attrs = d.attrs ∧
      (d.isAccessor = true ∨ l.attrs.writable = true) ∧
      s' = (s.setLinks obj (writeSlot (s.objects obj).links i d.slot)).withEpoch e

theorem defineNamed_cases {obj : ObjectId} {key : PropertyKey} {d : PropertyDescriptor}
    {answer : DefineAnswer} {s' : Isolate} (h : s.defineNamed obj key d = (answer, s')) :
    (answer ≠ .defined ∧ ∃ e, s' = s.withEpoch e) ∨
      (answer = .defined ∧ s.Redefines obj key d s') := by
  unfold defineNamed at h
  by_cases hacc : d.isAccessor = true
  · simp only [hacc, if_true] at h
    have hslot : d.slot = .accessor d.getter d.setter := if_pos hacc
    have hattrs : d.attrs.isAccessor = true := hacc
    have hfresh (h : (DefineAnswer.defined, ({ s with accessorEpoch := s.accessorEpoch + 1 }).pushLink
        obj ⟨key, d.attrs, .accessor d.getter d.setter⟩) = (answer, s')) :
        answer = .defined ∧ s.Redefines obj key d s' := by
      cases h
      refine ⟨rfl, s.accessorEpoch + 1, Or.inl ⟨by rw [hslot]; rfl, fun i l v hdata heq => ?_⟩⟩
      -- No data property has the attributes of an accessor.
      rw [← heq, hdata.attrs] at hattrs
      cases hattrs
    cases hlink : ownLink (s.objects obj).links key with
    | none =>
      simp only [hlink] at h
      exact Or.inr (hfresh h)
    | some l =>
      simp only [hlink] at h
      split at h
      · rename_i hown
        split at h
        · rename_i hsame
          obtain ⟨i, hfind⟩ := findOwnSlot_of_ownLink hlink
          have hlive : l.slot ≠ .hole ∧ l.attrs.isAccessor = true := by
            unfold Link.own at hown
            cases hl : l.slot <;> cases ha : l.attrs.isAccessor <;> simp_all
          have heq : l.attrs = d.attrs := by
            rw [← of_decide_eq_true hsame, ← hlive.2]
          simp only [writeOwn, hfind] at h
          cases h
          refine Or.inr ⟨rfl, s.accessorEpoch + 1, Or.inr ⟨i, l, hfind, hlink, hlive.1,
            heq, Or.inl hacc, ?_⟩⟩
          rw [hslot]
          rfl
        · exact Or.inr (hfresh h)
      · split at h
        · cases h
          exact Or.inl ⟨nofun, _, rfl⟩
        · exact Or.inr (hfresh h)
      · exact Or.inr (hfresh h)
  · have hacc' : d.isAccessor = false := by simpa using hacc
    simp only [hacc', Bool.false_eq_true, if_false] at h
    have hslot : d.slot = .data d.stored := if_neg hacc
    have hfresh (hdata : ∀ l v, ownLink (s.objects obj).links key = some l →
        l.own = some (.data v) → l.attrs = d.attrs →
        l.attrs.writable = false ∧ (d.hasValue = true → v.sameValue d.value = true))
        (h : (DefineAnswer.defined, s.pushLink obj ⟨key, d.attrs, .data d.stored⟩) = (answer, s')) :
        answer = .defined ∧ s.Redefines obj key d s' := by
      cases h
      refine ⟨rfl, s.accessorEpoch, Or.inl ⟨by rw [hslot]; rfl, fun i l v hat => ?_⟩⟩
      exact hdata l v hat.link (own_eq_data_iff.mpr ⟨hat.slot, hat.attrs⟩)
    cases hlink : ownLink (s.objects obj).links key with
    | none =>
      simp only [hlink] at h
      exact Or.inr (hfresh (fun l v hl => by cases hlink.symm.trans hl) h)
    | some l =>
      simp only [hlink] at h
      split at h
      · rename_i v₀ hown
        obtain ⟨i, hfind⟩ := findOwnSlot_of_ownLink hlink
        split at h
        · rename_i heq
          split at h
          · rename_i hwritable
            simp only [writeOwn, hfind] at h
            cases h
            refine Or.inr ⟨rfl, s.accessorEpoch, Or.inr ⟨i, l, hfind, hlink, ?_, heq,
              Or.inr (heq ▸ hwritable), by rw [hslot]; rfl⟩⟩
            simp [(own_eq_data_iff.mp hown).1]
          · rename_i hwritable
            split at h
            · cases h
              exact Or.inl ⟨nofun, s.accessorEpoch, rfl⟩
            rename_i hsame
            refine Or.inr (hfresh (fun l' v hl hv _ => ?_) h)
            cases hlink.symm.trans hl
            cases hown.symm.trans hv
            refine ⟨by simpa [heq] using hwritable, fun hhas => ?_⟩
            simpa [hhas] using hsame
        · rename_i hne
          refine Or.inr (hfresh (fun l' v hl _ heq => ?_) h)
          cases hlink.symm.trans hl
          exact absurd heq hne
      · rename_i hother
        refine Or.inr (hfresh (fun l' v hl hv _ => ?_) h)
        cases hlink.symm.trans hl
        exact absurd hv (hother v)

theorem definePropertyDescriptor_cases {obj : ObjectId} {key : PropertyKey}
    {d : PropertyDescriptor} {answer : DefineAnswer} {s' : Isolate}
    (h : s.definePropertyDescriptor obj key d = (answer, s')) :
    (answer ≠ .defined ∧ ∃ e, s' = s.withEpoch e) ∨
    (∃ arr, (s.objects obj).array = some arr ∧ (s' = s ∨ ∃ arr', s' = s.setArray obj arr')) ∨
    (((s.objects obj).array ≠ none → key ≠ lengthKey ∧ arrayIndexFromKey key = none) ∧
      ((s.objects obj).extensible = true ∨ (lookupOwnProperty (s.objects obj).links key).isSome) ∧
      s.Redefines obj key d s') := by
  simp only [definePropertyDescriptor] at h
  by_cases hext : (!(s.objects obj).extensible &&
      (lookupOwnProperty (s.objects obj).links key).isNone) = true
  · rw [if_pos hext] at h
    cases h
    exact Or.inl ⟨nofun, s.accessorEpoch, rfl⟩
  · rw [if_neg hext] at h
    have hown : (s.objects obj).extensible = true ∨
        (lookupOwnProperty (s.objects obj).links key).isSome := by
      cases he : (s.objects obj).extensible <;>
        cases hl : lookupOwnProperty (s.objects obj).links key <;> simp_all
    cases harray : (s.objects obj).array with
    | none =>
      simp only [harray] at h
      rcases defineNamed_cases h with hs | ⟨-, hs⟩
      · exact Or.inl hs
      · exact Or.inr (Or.inr ⟨by simp, hown, hs⟩)
    | some arr =>
      simp only [harray] at h
      split at h
      · split at h <;>
          (cases h
           exact Or.inl ⟨nofun, s.accessorEpoch, rfl⟩)
      rename_i hlength
      split at h
      · rename_i hidx
        rcases defineNamed_cases h with hs | ⟨-, hs⟩
        · exact Or.inl hs
        · exact Or.inr (Or.inr ⟨fun _ => ⟨hlength, hidx⟩, hown, hs⟩)
      · split at h
        · cases h
          exact Or.inl ⟨nofun, s.accessorEpoch, rfl⟩
        split at h
        · cases h
          exact Or.inl ⟨nofun, s.accessorEpoch, rfl⟩
        · split at h
          · cases h
            exact Or.inr (Or.inl ⟨arr, rfl, Or.inr ⟨_, rfl⟩⟩)
          · cases h
            exact Or.inr (Or.inl ⟨arr, rfl, Or.inl rfl⟩)

end Isolate

/-! ## Typed slots and plain arrays -/

/-- The slot holds what the attributes promise. -/
def Link.Typed (l : Link) : Prop :=
  match l.slot with
  | .hole => True
  | .data _ => l.attrs.isAccessor = false
  | .accessor _ _ => l.attrs.isAccessor = true

/-- A key that an array has no other use for. -/
def PropertyKey.Plain (key : PropertyKey) : Prop :=
  key ≠ lengthKey ∧ arrayIndexFromKey key = none

namespace Isolate

def Typed (s : Isolate) : Prop := ∀ id, ∀ l ∈ (s.objects id).links, l.Typed

def ArraysPlain (s : Isolate) : Prop :=
  ∀ id, (s.objects id).array ≠ none → ∀ l ∈ (s.objects id).links, l.key.Plain

/-- The changes the operations are made of. -/
inductive Change (s : Isolate) : Isolate → Prop where
  | epoch (e : Nat) : Change s (s.withEpoch e)
  /-- A slot is written with what its link allows. -/
  | write (obj : ObjectId) (i : Nat) (l : Link) (slot : Slot) (e : Nat)
      (hat : slotAt (s.objects obj).links i = some l)
      (htyped : ({ l with slot := slot } : Link).Typed) :
      Change s ((s.setLinks obj (writeSlot (s.objects obj).links i slot)).withEpoch e)
  | push (obj : ObjectId) (l : Link) (e : Nat) (htyped : l.Typed)
      (hplain : (s.objects obj).array ≠ none → l.key.Plain) :
      Change s ((s.pushLink obj l).withEpoch e)
  /-- Prototype, extensibility or elements of an object change. -/
  | object (obj : ObjectId) (o : Object) (hlinks : o.links = (s.objects obj).links)
      (harray : o.array = none ↔ (s.objects obj).array = none) :
      Change s (s.update obj o)
  | alloc (o : Object) (htyped : ∀ l ∈ o.links, l.Typed) (hplain : o.array = none ∨ o.links = []) :
      Change s (s.alloc o).2

abbrev Changes : Isolate → Isolate → Prop := Relation.ReflTransGen Change

variable {s s' : Isolate}

theorem Change.setArray {obj : ObjectId} {arr : ArrayObject Value}
    (h : (s.objects obj).array = some arr) (arr' : ArrayObject Value) :
    s.Change (s.setArray obj arr') :=
  .object obj _ rfl (by simp [h])

theorem typed_dataLinks (fields : List (PropertyKey × Value)) :
    ∀ l ∈ dataLinks fields, l.Typed := by
  intro l hl
  obtain ⟨f, -, rfl⟩ := List.mem_map.mp hl
  rfl

theorem PropertyDescriptor.typed_slot (key : PropertyKey) (d : PropertyDescriptor) :
    (⟨key, d.attrs, d.slot⟩ : Link).Typed := by
  unfold Link.Typed PropertyDescriptor.slot
  cases hacc : d.isAccessor <;> simp [PropertyDescriptor.attrs, hacc]

theorem Redefines.change {obj : ObjectId} {key : PropertyKey} {d : PropertyDescriptor}
    (h : s.Redefines obj key d s') (hplain : (s.objects obj).array ≠ none → key.Plain) :
    s.Change s' := by
  obtain ⟨e, ⟨rfl, -⟩ | ⟨i, l, hfind, hlink, -, hattrs, -, rfl⟩⟩ := h
  · exact .push obj _ e (PropertyDescriptor.typed_slot key d) hplain
  · refine .write obj i l d.slot e ((slotAt_findOwnSlot hfind).trans hlink) ?_
    have htyped := PropertyDescriptor.typed_slot l.key d
    rw [← hattrs] at htyped
    exact htyped

theorem run_changes {β : Type} (o : HeapOp β) (s : Isolate) : s.Changes (o.run s).2 := by
  have hdefine (obj : ObjectId) (key : PropertyKey) (v : Value) :
      s.Changes (s.defineProperty obj key v) := by
    rcases defineProperty_cases (s := s) obj key v with ⟨arr, arr', harray, h⟩ | h | ⟨hplain, h⟩
    · rw [h]
      exact .single (.setArray harray arr')
    · rw [h]
    · rw [h]
      exact .single (.push obj _ s.accessorEpoch rfl hplain)
  have hstore {honorWritable : Bool} {start : ObjectId} {key : PropertyKey} {v : Value} :
      s.Changes (s.storeAlongChain honorWritable start key v).2 := by
    rcases hrun : s.storeAlongChain honorWritable start key v with ⟨answer, s'⟩
    rcases storeAlongChain_cases hrun with ⟨-, rfl⟩ | ⟨-, rfl⟩ | ⟨i, l, v₀, hdata, -, rfl⟩
    · exact .refl
    · exact hdefine start key v
    · exact .single (.write start i l (.data v) s.accessorEpoch hdata.slotAt hdata.attrs)
  cases o with
  | read f => exact .refl
  | set start key v | setElement start key v => exact hstore
  | defineGlobalVar name =>
    simp only [HeapOp.run, defineGlobalVar]
    split
    · exact hdefine s.global name .undefined
    · exact .refl
  | array obj op =>
    simp only [HeapOp.run, arrayStep]
    cases harray : (s.objects obj).array with
    | none => exact .refl
    | some arr => exact .single (.setArray harray _)
  | delete obj key =>
    rcases hrun : s.deleteOwn obj key with ⟨answer, s'⟩
    simp only [HeapOp.run, hrun]
    rcases deleteOwn_cases hrun with
      rfl | ⟨arr, arr', harray, rfl⟩ | ⟨i, l, hfind, hlink, -, rfl⟩
    · exact .refl
    · exact .single (.setArray harray arr')
    · exact .single (.write obj i l .hole s.accessorEpoch
        ((slotAt_findOwnSlot hfind).trans hlink) trivial)
  | setPrototype obj proto =>
    simp only [HeapOp.run, setPrototype]
    split
    · exact .refl
    · exact .single (.object obj _ rfl Iff.rfl)
  | defineDescriptor obj key d =>
    rcases hrun : s.definePropertyDescriptor obj key d with ⟨answer, s'⟩
    simp only [HeapOp.run, hrun]
    rcases definePropertyDescriptor_cases hrun with
      ⟨-, e, rfl⟩ | ⟨arr, harray, rfl | ⟨arr', rfl⟩⟩ | ⟨hplain, -, h⟩
    · exact .single (.epoch e)
    · exact .refl
    · exact .single (.setArray harray arr')
    · exact .single (h.change hplain)
  | preventExtensions obj => exact .single (.object obj _ rfl Iff.rfl)
  | newPlainObject proto fields => exact .single (.alloc _ (typed_dataLinks fields) (Or.inl rfl))
  | newArray => exact .single (.alloc _ (fun l hl => by cases hl) (Or.inr rfl))
  | newClosure =>
    exact (Relation.ReflTransGen.single (.alloc _ (typed_dataLinks _) (Or.inl rfl))).tail
      (.alloc _ (typed_dataLinks _) (Or.inl rfl))

/-! ### What the changes keep -/

theorem typed_setLinks {obj : ObjectId} {links : List Link} (h : s.Typed)
    (hlinks : ∀ l ∈ links, l.Typed) : (s.setLinks obj links).Typed := by
  intro id l hl
  simp only [setLinks, objects_update] at hl
  split at hl
  · exact hlinks l hl
  · exact h id l hl

theorem Change.typed (h : s.Change s') (hs : s.Typed) : s'.Typed := by
  cases h with
  | epoch e => exact hs
  | write obj i l slot e hat htyped =>
    refine typed_setLinks hs fun l' hl' => ?_
    rcases mem_writeSlot hl' with hl' | ⟨l₀, -, hat', rfl⟩
    · exact hs obj l' hl'
    · rw [hat] at hat'
      cases hat'
      exact htyped
  | push obj l e htyped hplain =>
    refine typed_setLinks hs fun l' hl' => ?_
    rcases List.mem_cons.mp hl' with rfl | hl'
    · exact htyped
    · exact hs obj l' hl'
  | object obj o hlinks harray =>
    intro id l hl
    simp only [objects_update] at hl
    split at hl
    · exact hs obj l (hlinks ▸ hl)
    · exact hs id l hl
  | alloc o htyped hplain =>
    intro id l hl
    simp only [objects_alloc] at hl
    split at hl
    · exact htyped l hl
    · exact hs id l hl

theorem Change.arraysPlain (h : s.Change s') (hs : s.ArraysPlain) : s'.ArraysPlain := by
  cases h with
  | epoch e => exact hs
  | write obj i l slot e hat htyped =>
    intro id harray l' hl'
    simp only [objects_withEpoch, setLinks, objects_update] at harray hl'
    split at hl'
    · rename_i hid
      subst hid
      rcases mem_writeSlot hl' with hmem | ⟨l₀, hmem, -, rfl⟩
      · exact hs id (by simpa using harray) l' hmem
      · exact hs id (by simpa using harray) l₀ hmem
    · rename_i hid
      exact hs id (by simpa [hid] using harray) l' hl'
  | push obj l e htyped hplain =>
    intro id harray l' hl'
    simp only [objects_withEpoch, pushLink, setLinks, objects_update] at harray hl'
    split at hl'
    · rename_i hid
      subst hid
      rcases List.mem_cons.mp hl' with rfl | hmem
      · exact hplain (by simpa using harray)
      · exact hs id (by simpa using harray) l' hmem
    · rename_i hid
      exact hs id (by simpa [hid] using harray) l' hl'
  | object obj o hlinks hnone =>
    intro id harray l' hl'
    simp only [objects_update] at harray hl'
    split at hl'
    · rename_i hid
      subst hid
      rw [if_pos rfl, ne_eq, hnone] at harray
      exact hs id harray l' (hlinks ▸ hl')
    · rename_i hid
      exact hs id (by simpa [hid] using harray) l' hl'
  | alloc o htyped hplain =>
    intro id harray l' hl'
    simp only [objects_alloc] at harray hl'
    split at hl'
    · rename_i hid
      rcases hplain with hnone | hnil
      · simp [hid, hnone] at harray
      · simp [hnil] at hl'
    · rename_i hid
      exact hs id (by simpa [hid] using harray) l' hl'

theorem Change.allocated_le (h : s.Change s') : s.allocated ≤ s'.allocated := by
  cases h with
  | alloc o htyped hplain => exact Nat.le_succ _
  | _ => exact Nat.le_refl _

/-- What holds of every heap of a run. -/
structure Sound (s : Isolate) : Prop where
  typed : s.Typed
  plain : s.ArraysPlain
  allocated_pos : 0 < s.allocated

theorem Change.sound (h : s.Change s') (hs : s.Sound) : s'.Sound :=
  ⟨h.typed hs.typed, h.arraysPlain hs.plain, Nat.lt_of_lt_of_le hs.allocated_pos h.allocated_le⟩

theorem Changes.sound (h : s.Changes s') (hs : s.Sound) : s'.Sound := by
  induction h with
  | refl => exact hs
  | tail _ hlast ih => exact hlast.sound ih

end Isolate

end B2Compiler.Ts
