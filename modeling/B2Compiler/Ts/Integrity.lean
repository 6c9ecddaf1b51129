import B2Compiler.Ts.InstalledCaches

/-!
# Integrity of objects

What an object promises once its extension is prevented, or once a property of it cannot
be configured any more, and which operations keep that promise.
-/

namespace B2Compiler.Ts

open Lib

/-! ## The promise -/

def Live (links : List Link) (key : PropertyKey) (l : Link) : Prop :=
  ownLink links key = some l ∧ l.slot ≠ .hole

/-- The new link of a non-configurable property against the old one: the attributes stay,
and a data property that cannot be written keeps its value. -/
structure Link.Keeps (l l' : Link) : Prop where
  configurable : l'.attrs.configurable = false
  enumerable : l'.attrs.enumerable = l.attrs.enumerable
  value : ∀ v, l.slot = .data v → l.attrs.isAccessor = false → l.attrs.writable = false →
    ∃ v', l'.slot = .data v' ∧ l'.attrs.isAccessor = false ∧ l'.attrs.writable = false ∧
      v.sameValue v' = true

structure Object.Keeps (o o' : Object) : Prop where
  extensible : o.extensible = false → o'.extensible = false
  proto : o.extensible = false → o'.proto = o.proto
  keys : o.extensible = false → ∀ key l', Live o'.links key l' → ∃ l, Live o.links key l
  fixed : ∀ key l, Live o.links key l → l.attrs.configurable = false →
    ∃ l', Live o'.links key l' ∧ l.Keeps l'

/-- Every ordinary object keeps its promises from one heap to the other. -/
structure Integrity (s s' : Isolate) : Prop where
  allocated : s.allocated ≤ s'.allocated
  ordinary : ∀ id < s.allocated, (s.objects id).array = none → (s'.objects id).array = none
  keeps : ∀ id < s.allocated, (s.objects id).array = none → (s.objects id).Keeps (s'.objects id)

section Order

variable {s s' s'' : Isolate} {o o' o'' : Object} {l l' l'' : Link}

theorem Link.Keeps.refl (h : l.attrs.configurable = false) : l.Keeps l :=
  ⟨h, rfl, fun v hslot hacc hwritable => ⟨v, hslot, hacc, hwritable, v.sameValue_refl⟩⟩

theorem Link.Keeps.trans (h : l.Keeps l') (h' : l'.Keeps l'') : l.Keeps l'' := by
  refine ⟨h'.configurable, h'.enumerable.trans h.enumerable, fun v hslot hacc hwritable => ?_⟩
  obtain ⟨v', hslot', hacc', hwritable', hsame⟩ := h.value v hslot hacc hwritable
  obtain ⟨v'', hslot'', hacc'', hwritable'', hsame'⟩ := h'.value v' hslot' hacc' hwritable'
  exact ⟨v'', hslot'', hacc'', hwritable'', Value.sameValue_trans hsame hsame'⟩

theorem Object.Keeps.refl (o : Object) : o.Keeps o where
  extensible h := h
  proto _ := rfl
  keys _ _ l' hl' := ⟨l', hl'⟩
  fixed _ l hl hconf := ⟨l, hl, .refl hconf⟩

theorem Object.Keeps.trans (h : o.Keeps o') (h' : o'.Keeps o'') : o.Keeps o'' where
  extensible hext := h'.extensible (h.extensible hext)
  proto hext := (h'.proto (h.extensible hext)).trans (h.proto hext)
  keys hext key l'' hl'' := by
    obtain ⟨l', hl'⟩ := h'.keys (h.extensible hext) key l'' hl''
    exact h.keys hext key l' hl'
  fixed key l hl hconf := by
    obtain ⟨l', hl', hkeeps⟩ := h.fixed key l hl hconf
    obtain ⟨l'', hl'', hkeeps'⟩ := h'.fixed key l' hl' hkeeps.configurable
    exact ⟨l'', hl'', hkeeps.trans hkeeps'⟩

theorem Integrity.refl (s : Isolate) : Integrity s s :=
  ⟨Nat.le_refl _, fun _ _ h => h, fun id _ _ => .refl (s.objects id)⟩

theorem Integrity.trans (h : Integrity s s') (h' : Integrity s' s'') : Integrity s s'' := by
  refine ⟨h.allocated.trans h'.allocated, fun id hid harray => ?_, fun id hid harray => ?_⟩
  · exact h'.ordinary id (Nat.lt_of_lt_of_le hid h.allocated) (h.ordinary id hid harray)
  · exact (h.keeps id hid harray).trans
      (h'.keeps id (Nat.lt_of_lt_of_le hid h.allocated) (h.ordinary id hid harray))

/-- Integrity of a heap in which one object has changed. -/
theorem Integrity.update {obj : ObjectId} {e : Nat} (h : (s.objects obj).array = none →
      obj < s.allocated → o.array = none ∧ (s.objects obj).Keeps o) :
    Integrity s ((s.update obj o).withEpoch e) := by
  refine ⟨Nat.le_refl _, fun id hid harray => ?_, fun id hid harray => ?_⟩
  · by_cases hobj : id = obj
    · subst hobj
      simpa using (h harray hid).1
    · simpa [hobj] using harray
  · by_cases hobj : id = obj
    · subst hobj
      simpa using (h harray hid).2
    · simpa [hobj] using Object.Keeps.refl (s.objects id)

theorem Integrity.withEpoch (s : Isolate) (e : Nat) : Integrity s (s.withEpoch e) :=
  ⟨Nat.le_refl _, fun _ _ h => h, fun id _ _ => .refl (s.objects id)⟩

theorem Integrity.setArray {obj : ObjectId} {arr : ArrayObject Value}
    (harray : (s.objects obj).array = some arr) (arr' : ArrayObject Value) :
    Integrity s (s.setArray obj arr') :=
  .update (e := s.accessorEpoch) fun hnone => by
    rw [harray] at hnone
    cases hnone

theorem Integrity.alloc (s : Isolate) (o : Object) : Integrity s (s.alloc o).2 := by
  have hold (id : ObjectId) (hid : id < s.allocated) : (s.alloc o).2.objects id = s.objects id := by
    rw [Isolate.objects_alloc, if_neg (Nat.ne_of_lt hid)]
  refine ⟨Nat.le_succ _, fun id hid harray => ?_, fun id hid _ => ?_⟩
  · rw [hold id hid]
    exact harray
  · rw [hold id hid]
    exact .refl _

end Order

section Links

variable {s : Isolate} {obj : ObjectId} {key : PropertyKey} {links : List Link} {i : Nat}
  {l l₀ : Link}

theorem Integrity.pushLink {e : Nat} (hkeys : (s.objects obj).array = none → obj < s.allocated →
      (s.objects obj).extensible = true ∨ ∃ l₀, Live (s.objects obj).links l.key l₀)
    (hfixed : (s.objects obj).array = none → obj < s.allocated →
      ∀ l₀, Live (s.objects obj).links l.key l₀ → l₀.attrs.configurable = false →
        l.slot ≠ .hole ∧ l₀.Keeps l) :
    Integrity s ((s.pushLink obj l).withEpoch e) := by
  refine .update fun harray hlt => ⟨harray, ?_⟩
  refine ⟨fun hext => hext, fun _ => rfl, fun hext key l' hl' => ?_, fun key l₀ hl₀ hconf => ?_⟩
  · simp only [Live, ownLink_cons] at hl'
    by_cases hkey : l.key = key
    · subst hkey
      rcases hkeys harray hlt with hyes | hlive
      · rw [hext] at hyes
        cases hyes
      · exact hlive
    · rw [if_neg hkey] at hl'
      exact ⟨l', hl'⟩
  · by_cases hkey : l.key = key
    · subst hkey
      obtain ⟨hlive, hkeeps⟩ := hfixed harray hlt l₀ hl₀ hconf
      exact ⟨l, ⟨by rw [ownLink_cons, if_pos rfl], hlive⟩, hkeeps⟩
    · exact ⟨l₀, ⟨by rw [ownLink_cons, if_neg hkey]; exact hl₀.1, hl₀.2⟩, .refl hconf⟩

theorem Integrity.writeSlot {e : Nat} {slot : Slot}
    (hfind : findOwnSlot (s.objects obj).links key = some i)
    (hlink : ownLink (s.objects obj).links key = some l) (hlive : l.slot ≠ .hole)
    (hfixed : (s.objects obj).array = none → l.attrs.configurable = false →
      slot ≠ .hole ∧ l.Keeps { l with slot := slot }) :
    Integrity s ((s.setLinks obj (Ts.writeSlot (s.objects obj).links i slot)).withEpoch e) := by
  refine .update fun harray _ => ⟨harray, ?_⟩
  refine ⟨fun hext => hext, fun _ => rfl, fun _ key' l' hl' => ?_, fun key' l₀ hl₀ hconf => ?_⟩
  · simp only [Live, ownLink_writeSlot hfind] at hl'
    by_cases hkey : key' = key
    · subst hkey
      exact ⟨l, hlink, hlive⟩
    · rw [if_neg hkey] at hl'
      exact ⟨l', hl'⟩
  · simp only [Live, ownLink_writeSlot hfind]
    by_cases hkey : key' = key
    · subst hkey
      have hsame : l₀ = l := Option.some.inj (hl₀.1.symm.trans hlink)
      subst hsame
      obtain ⟨hlive', hkeeps⟩ := hfixed harray hconf
      exact ⟨_, ⟨by rw [if_pos rfl, hlink]; rfl, hlive'⟩, hkeeps⟩
    · rw [if_neg hkey]
      exact ⟨l₀, hl₀, .refl hconf⟩

end Links

/-! ## Operations that keep the promise -/

def Isolate.MayDefine (s : Isolate) (obj : ObjectId) (key : PropertyKey) : Prop :=
  s.defines obj key = true → (s.objects obj).array = none → (s.objects obj).extensible = true

/-- The descriptor leaves a non-configurable property what it is. -/
def PropertyDescriptor.Respects (d : PropertyDescriptor) (l : Link) : Prop :=
  d.configurable = false ∧ d.enumerable = l.attrs.enumerable ∧
    ∀ v, l.slot = .data v → l.attrs.isAccessor = false → l.attrs.writable = false →
      d.isAccessor = false ∧ d.writable = false ∧
        (d.hasValue = false → v.sameValue .undefined = true)

/-- The condition on an operation, at the heap it is performed on. -/
def HeapOp.Permitted {β : Type} : HeapOp β → Isolate → Prop
  | .set start key _, s => s.MayDefine start key
  | .setElement start key v, s => s.MayDefine start key ∧
      ((s.objects start).array = none → ∀ l v₀, Live (s.objects start).links key l →
        l.slot = .data v₀ → l.attrs.isAccessor = false →
        l.attrs.writable = true ∨ l.attrs.configurable = true ∨ v₀.sameValue v = true)
  | .defineGlobalVar name, s => s.MayDefine s.global name
  | .delete obj key, s => (s.objects obj).array = none →
      ∀ l, Live (s.objects obj).links key l → l.attrs.configurable = true
  | .setPrototype obj proto, s => (s.objects obj).array = none → s.makesCycle obj proto = false →
      (s.objects obj).extensible = false → proto = (s.objects obj).proto
  | .defineDescriptor obj key d, s => (s.objects obj).array = none →
      ∀ l, Live (s.objects obj).links key l → l.attrs.configurable = false → d.Respects l
  | _, _ => True

section Operations

variable {s s' : Isolate}

theorem not_live_of_lookup {links : List Link} {key : PropertyKey} {l : Link}
    (h : lookupOwnProperty links key = none) : ¬ Live links key l := by
  rintro ⟨hlink, hlive⟩
  simp only [lookupOwnProperty, hlink, Option.bind_some] at h
  unfold Link.own at h
  cases hslot : l.slot <;> cases hacc : l.attrs.isAccessor <;> simp_all

theorem live_of_lookup {links : List Link} {key : PropertyKey}
    (h : (lookupOwnProperty links key).isSome = true) : ∃ l, Live links key l := by
  unfold lookupOwnProperty at h
  cases hlink : ownLink links key with
  | none => simp [hlink] at h
  | some l =>
    refine ⟨l, hlink, fun hhole => ?_⟩
    simp [hlink, Link.own, hhole] at h

/-- A definition where a store finds nothing of its own. -/
theorem Integrity.defineProperty {obj : ObjectId} {key : PropertyKey}
    (hdefines : s.defines obj key = true) (h : s.MayDefine obj key) (v : Value) :
    Integrity s (s.defineProperty obj key v) := by
  rcases Isolate.defineProperty_cases (s := s) obj key v with
    ⟨arr, arr', harray, heq⟩ | heq | ⟨-, heq⟩
  · rw [heq]
    exact .setArray harray arr'
  · rw [heq]
    exact .refl s
  · rw [heq]
    have hnone (hlt : obj < s.allocated) (l : Link) : ¬ Live (s.objects obj).links key l :=
      not_live_of_lookup (Isolate.lookupOwnProperty_of_defines
        (Nat.lt_of_le_of_lt (Nat.zero_le _) hlt) hdefines)
    exact .pushLink (e := s.accessorEpoch) (fun harray _ => Or.inl (h hdefines harray))
      fun _ hlt l₀ hl₀ => absurd hl₀ (hnone hlt l₀)

theorem Integrity.store {honorWritable : Bool} {start : ObjectId} {key : PropertyKey} {v : Value}
    (h : s.MayDefine start key)
    (hwrite : honorWritable = false → (s.objects start).array = none →
      ∀ l v₀, Live (s.objects start).links key l → l.slot = .data v₀ → l.attrs.isAccessor = false →
        l.attrs.writable = true ∨ l.attrs.configurable = true ∨ v₀.sameValue v = true) :
    Integrity s (s.storeAlongChain honorWritable start key v).2 := by
  rcases hrun : s.storeAlongChain honorWritable start key v with ⟨answer, s'⟩
  rcases Isolate.storeAlongChain_cases hrun with
    ⟨-, rfl⟩ | ⟨hdefines, rfl⟩ | ⟨i, l, v₀, hdata, hwritable, rfl⟩
  · exact .refl s'
  · exact .defineProperty hdefines h v
  · have hlive : l.slot ≠ .hole := by simp [hdata.slot]
    refine .writeSlot (e := s.accessorEpoch) hdata.find hdata.link hlive fun harray hconf => ?_
    refine ⟨nofun, hconf, rfl, fun v₁ hslot hacc hread => ⟨v, rfl, hacc, hread, ?_⟩⟩
    cases hdata.slot.symm.trans hslot
    cases honorWritable with
    | true =>
      rw [hwritable rfl] at hread
      cases hread
    | false =>
      rcases hwrite rfl harray l v₀ ⟨hdata.link, hlive⟩ hdata.slot hacc with hw | hc | hsame
      · rw [hw] at hread
        cases hread
      · rw [hc] at hconf
        cases hconf
      · exact hsame

theorem Integrity.redefines {obj : ObjectId} {key : PropertyKey} {d : PropertyDescriptor}
    (h : s.Redefines obj key d s')
    (hown : (s.objects obj).extensible = true ∨
      (lookupOwnProperty (s.objects obj).links key).isSome = true)
    (hrespects : (s.objects obj).array = none →
      ∀ l, Live (s.objects obj).links key l → l.attrs.configurable = false → d.Respects l) :
    Integrity s s' := by
  obtain ⟨e, ⟨rfl, hpush⟩ | ⟨i, l, hfind, hlink, hlive, hattrs, hwritable, rfl⟩⟩ := h
  · refine .pushLink (fun _ _ => hown.imp_right live_of_lookup) fun harray _ l₀ hl₀ hconf => ?_
    obtain ⟨hdconf, hdenum, hdata⟩ := hrespects harray l₀ hl₀ hconf
    refine ⟨?_, hdconf, hdenum, fun v hslot hacc hread => ?_⟩
    · unfold PropertyDescriptor.slot
      split <;> intro h <;> cases h
    obtain ⟨hdacc, hdread, hdvalue⟩ := hdata v hslot hacc hread
    have hdattrs : d.attrs = l₀.attrs := by
      simp only [PropertyDescriptor.attrs, hdacc, hdread, hdenum, hdconf]
      cases hl : l₀.attrs
      simp_all
    have hdslot : d.slot = .data d.stored := by simp [PropertyDescriptor.slot, hdacc]
    refine ⟨d.stored, hdslot, hdacc, by simp [PropertyDescriptor.attrs, hdread], ?_⟩
    obtain ⟨i, hfind⟩ := findOwnSlot_of_ownLink hl₀.1
    have hat : DataAt (s.objects obj).links key i l₀ v := ⟨hfind, hl₀.1, hslot, hacc⟩
    cases hhas : d.hasValue with
    | true =>
      have hsame := (hpush i l₀ v hat hdattrs.symm).2 hhas
      simpa [PropertyDescriptor.stored, hhas] using hsame
    | false => simpa [PropertyDescriptor.stored, hhas] using hdvalue hhas
  · refine .writeSlot hfind hlink hlive fun _ hconf =>
      ⟨?_, hconf, rfl, fun v hslot hacc hread => ?_⟩
    · unfold PropertyDescriptor.slot
      split <;> intro h <;> cases h
    · -- Neither an accessor nor a writable property is such a data property.
      rcases hwritable with hdacc | hw
      · have hlacc : l.attrs.isAccessor = true := by rw [hattrs]; exact hdacc
        rw [hacc] at hlacc
        cases hlacc
      · rw [hw] at hread
        cases hread

theorem HeapOp.run_integrity {β : Type} (o : HeapOp β) (s : Isolate) (h : o.Permitted s) :
    Integrity s (o.run s).2 := by
  cases o with
  | read f => exact .refl s
  | set start key v => exact .store h nofun
  | setElement start key v => exact .store h.1 fun _ => h.2
  | defineGlobalVar name =>
    simp only [HeapOp.run, Isolate.defineGlobalVar]
    cases hlook : s.lookupProperty s.global name with
    | none =>
      have hdefines : s.defines s.global name = true := by simp [Isolate.defines, hlook]
      exact .defineProperty hdefines h .undefined
    | some found => exact .refl s
  | array obj op =>
    simp only [HeapOp.run, Isolate.arrayStep]
    cases harray : (s.objects obj).array with
    | none => exact .refl s
    | some arr => exact .setArray harray _
  | delete obj key =>
    rcases hrun : s.deleteOwn obj key with ⟨answer, s'⟩
    simp only [HeapOp.run, hrun]
    rcases Isolate.deleteOwn_cases hrun with
      rfl | ⟨arr, arr', harray, rfl⟩ | ⟨i, l, hfind, hlink, hlive, rfl⟩
    · exact .refl s'
    · exact .setArray harray arr'
    · refine .writeSlot (e := s.accessorEpoch) hfind hlink hlive fun harray hconf => ?_
      rw [h harray l ⟨hlink, hlive⟩] at hconf
      cases hconf
  | setPrototype obj proto =>
    simp only [HeapOp.run, Isolate.setPrototype]
    cases hcycle : s.makesCycle obj proto with
    | true => exact .refl s
    | false =>
      refine .update (e := s.accessorEpoch) fun harray _ => ⟨harray, ?_⟩
      exact ⟨fun hext => hext, h harray hcycle, fun _ _ l' hl' => ⟨l', hl'⟩,
        fun _ l hl hconf => ⟨l, hl, .refl hconf⟩⟩
  | defineDescriptor obj key d =>
    rcases hrun : s.definePropertyDescriptor obj key d with ⟨answer, s'⟩
    simp only [HeapOp.run, hrun]
    rcases Isolate.definePropertyDescriptor_cases hrun with
      ⟨-, e, rfl⟩ | ⟨arr, harray, rfl | ⟨arr', rfl⟩⟩ | ⟨-, hown, hredefines⟩
    · exact .withEpoch s e
    · exact .refl s'
    · exact .setArray harray arr'
    · exact .redefines hredefines hown h
  | preventExtensions obj =>
    refine .update (e := s.accessorEpoch) fun harray _ => ⟨harray, ?_⟩
    exact ⟨fun _ => rfl, fun _ => rfl, fun _ _ l' hl' => ⟨l', hl'⟩,
      fun _ l hl hconf => ⟨l, hl, .refl hconf⟩⟩
  | newPlainObject proto fields | newArray => exact .alloc s _
  | newClosure => exact (Integrity.alloc s _).trans (.alloc _ _)

end Operations

/-! ## Instructions -/

/-- Every operation of the procedure up to its next stop is permitted. -/
def Permits {α : Type} (p : Proc α) (s : Isolate) : Prop :=
  Procedure.Performs HeapOp.run (fun o s => o.Permitted s) p s

theorem exec_integrity {α : Type} (p : Proc α) (s : Isolate) (h : Permits p s) :
    Integrity s (p.exec s).2 := by
  have hop {β : Type} (o : HeapOp β) (s : Isolate) (_ : True) (ho : o.Permitted s) :
      True ∧ Integrity s (o.run s).2 := ⟨trivial, o.run_integrity s ho⟩
  exact (Procedure.exec_preserves HeapOp.run Integrity.refl (fun _ _ _ => Integrity.trans) hop
    p s trivial h).2

namespace Machine

variable {M : Machine}

/-- The transition a store takes puts its link over no non-configurable property that the
link does not keep. -/
def PermittedTransition (M : Machine) : Instruction → Prop
  | .setProperty pc recv key v => ∀ obj t, objectOfValue recv = some obj →
      M.slotHit (.property pc) obj = none → M.transitionHit (.property pc) obj key = some t →
      (M.heap.objects obj).array = none →
      ∀ l, Live (M.heap.objects obj).links t.added.1 l → l.attrs.configurable = false →
        l.Keeps ⟨t.added.1, t.added.2, .data v⟩
  | _ => True

/-- The condition on an instruction, at the state before it. -/
def Permitted (M : Machine) (recording : Bool) (i : Instruction) : Prop :=
  match i with
  | .resume r => ∀ f rest, M.stack = f :: rest → Permits (f.next r) M.heap
  | i => if recording ∧ (M.hit i).isSome then M.PermittedTransition i else Permits i.proc M.heap

theorem permitted_other {recording : Bool} {i : Instruction} (hi : ∀ r, i ≠ .resume r)
    (h : M.Permitted recording i) :
    if recording ∧ (M.hit i).isSome then M.PermittedTransition i else Permits i.proc M.heap := by
  cases i with
  | resume r => exact absurd rfl (hi r)
  | _ => exact h

/-- A hit writes a slot that can be written, or appends to an extensible object. -/
theorem hit_integrity (hM : M.Ok) {i : Instruction} (hi : M.PermittedTransition i)
    {result : Observation × Machine} (h : M.hit i = some result) :
    Integrity M.heap result.2.heap := by
  have hwrite {site : Site} {obj : ObjectId} {slot : Slot} (v : Value)
      (hslot : M.slotHit site obj = some slot) :
      Integrity M.heap (M.writeCached site obj v) := by
    obtain ⟨key, l, -, hfind, hlink, -, hlive, hwritable, -⟩ := slotHit_link hM hslot
    refine .writeSlot (e := M.heap.accessorEpoch) hfind hlink hlive fun _ hconf => ?_
    refine ⟨nofun, hconf, rfl, fun _ _ _ hread => ?_⟩
    rw [hwritable] at hread
    cases hread
  cases hit_case h with
  | getProperty | loadGlobal => exact .refl _
  | setProperty pc recv key v obj slot hrecv hslot | storeGlobal pc name v slot hslot =>
    exact hwrite v hslot
  | transition pc recv key v obj t hrecv hslot ht =>
    have hext : (M.heap.objects obj).extensible = true := by
      unfold transitionHit FeedbackSlot.transitionFor at ht
      split at ht
      · cases ht
      · split at ht
        · rename_i hguard
          exact hguard.2.2.1
        · cases ht
    exact .pushLink (e := M.heap.accessorEpoch) (fun _ _ => Or.inl hext)
      fun harray _ l₀ hl₀ hconf => ⟨nofun, hi obj t hrecv hslot ht harray l₀ hl₀ hconf⟩

theorem step_integrity (hM : M.Ok) (recording : Bool) (i : Instruction)
    (h : M.Permitted recording i) : Integrity M.heap (M.step recording i).2.heap := by
  by_cases hres : ∃ r, i = .resume r
  · obtain ⟨r, rfl⟩ := hres
    cases hstack : M.stack with
    | nil =>
      simp only [step, hstack]
      exact .refl _
    | cons f rest =>
      simp only [step, hstack, heap_settle]
      exact exec_integrity _ _ (h f rest hstack)
  · have hother := permitted_other (not_exists.mp hres) h
    rw [step_other M recording (not_exists.mp hres)]
    have hmiss (install : Install) (hp : Permits i.proc M.heap) :
        Integrity M.heap (M.miss install i).2.heap := by
      unfold miss
      rw [heap_settle]
      exact exec_integrity _ _ hp
    cases recording with
    | false => exact hmiss .nothing (by simpa using hother)
    | true =>
      rw [if_pos rfl]
      cases hhit : M.hit i with
      | none => exact hmiss _ (by simpa [hhit] using hother)
      | some result => exact hit_integrity hM (by simpa [hhit] using hother) hhit

end Machine

/-- Every instruction of the first `n` meets the condition at its state. -/
def PermittedRun (recording : Bool) (s : Isolate) (client : Client) (n : Nat) : Prop :=
  ∀ m < n, (runClient recording s client m).1.Permitted recording
    (client (runClient recording s client m).2)

/-- In a run whose operations are all permitted, with the caches on or off, every ordinary
object keeps its promises from each state to every later one. -/
theorem integrity_of_permitted (recording : Bool) (s : Isolate) (client : Client) (n : Nat)
    (h : PermittedRun recording s client n) (m k : Nat) (hmk : m ≤ k) (hkn : k ≤ n) :
    Integrity (runClient recording s client m).1.heap (runClient recording s client k).1.heap := by
  induction k with
  | zero =>
    obtain rfl := Nat.le_zero.mp hmk
    exact .refl _
  | succ k ih =>
    rcases Nat.lt_or_eq_of_le hmk with hlt | rfl
    · have hrest := ih (Nat.le_of_lt_succ hlt) (Nat.le_of_succ_le hkn)
      exact hrest.trans
        (Machine.step_integrity (runClient_ok recording s client k) recording _ (h k hkn))
    · exact .refl _

/-! ### Two stores to an object that cannot be extended -/

/-- `Object.preventExtensions(point)` and then a store of this key. -/
def sealThenStore (name : String) : Client := fun seen =>
  match seen with
  | [] => .method .preventExtensions (.object 1)
  | _ => .setProperty 0 (.object 1) (nameKey name) (.smi 5)

/-- A store to a property it has. -/
theorem integrity_of_permitted_own :
    Integrity pointIsolate (runClient false pointIsolate (sealThenStore "x") 2).1.heap := by
  refine integrity_of_permitted false pointIsolate (sealThenStore "x") 2 ?_ 0 2 (by decide)
    (by decide)
  intro m hm
  have hcases : m = 0 ∨ m = 1 := by omega
  rcases hcases with rfl | rfl
  · exact ⟨trivial, trivial, trivial⟩
  · refine ⟨trivial, ?_, trivial⟩
    intro hdefines
    exact absurd hdefines (by decide)

/-- A store to one it does not have adds a key. -/
theorem sealThenStore_adds_key :
    ¬ Integrity (runClient false pointIsolate (sealThenStore "z") 1).1.heap
      (runClient false pointIsolate (sealThenStore "z") 2).1.heap := by
  intro h
  have hlive : Live ((runClient false pointIsolate (sealThenStore "z") 2).1.heap.objects 1).links
      (nameKey "z") ⟨nameKey "z", kDefaultDataAttrs, .data (.smi 5)⟩ := by
    unfold Live
    decide
  obtain ⟨l, hlink, -⟩ := (h.keeps 1 (by decide) rfl).keys rfl (nameKey "z") _ hlive
  have hnone : ownLink ((runClient false pointIsolate (sealThenStore "z") 1).1.heap.objects
      1).links (nameKey "z") = none := by decide
  rw [hnone] at hlink
  cases hlink

end B2Compiler.Ts
