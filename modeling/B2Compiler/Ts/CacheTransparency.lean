import B2Compiler.Ts.InstalledCaches

/-!
# Transparency of the caches

A run with recording on against the run of the same client with recording off.
-/

namespace B2Compiler.Ts

open Lib Procedure Isolate

theorem exec_changes {α : Type} (p : Proc α) (s : Isolate) : s.Changes (p.exec s).2 :=
  exec_relates _ (fun _ => .refl) (fun _ _ _ => .trans) (fun o s => s.run_changes o) p s

theorem exec_sound {α : Type} (p : Proc α) {s : Isolate} (hs : s.Sound) : (p.exec s).2.Sound :=
  (exec_changes p s).sound hs

section Own

variable {s : Isolate} {obj : ObjectId} {key : PropertyKey} {i : Nat} {l : Link} {v : Value}

theorem plain_of_link (hs : s.Sound) (h : ownLink (s.objects obj).links key = some l) :
    (s.objects obj).array = none ∨ key.Plain := by
  by_cases harray : (s.objects obj).array = none
  · exact .inl harray
  · exact .inr (ownLink_key h ▸ hs.plain obj harray l (ownLink_mem h))

theorem getAlongChain_own (hs : s.Sound) (h : DataAt (s.objects obj).links key i l v) :
    s.getAlongChain obj key = .value v := by
  obtain ⟨rest, hchain⟩ := chain_cons hs.allocated_pos obj
  have hfetch : (s.objects obj).fetch key = some (.value v) := by
    unfold Object.fetch
    rcases plain_of_link hs h.link with harray | ⟨hlength, hidx⟩
    · simp [harray, h.lookup, Own.fetch]
    · cases harray : (s.objects obj).array <;> simp [hidx, hlength, h.lookup, Own.fetch]
  simp [getAlongChain, hchain, hfetch]

theorem setAlongChain_own (hs : s.Sound) (h : DataAt (s.objects obj).links key i l v)
    (hwritable : l.attrs.writable = true) (w : Value) :
    s.setAlongChain obj key w =
      (.wrote, s.setLinks obj (writeSlot (s.objects obj).links i (.data w))) := by
  simp [setAlongChain, storeAlongChain,
    lookupProperty_start hs.allocated_pos h.lookup, isReadOnly, h.attrs_eq,
    hwritable, writeOwn, h.find]

theorem getProperty_object {recv : Value} (h : objectOfValue recv = some obj) :
    getProperty recv key = getObject obj recv key := by
  cases recv with
  | object id | closure c =>
    cases h
    rfl
  | _ => cases h

theorem setProperty_object {recv : Value} (h : objectOfValue recv = some obj) (w : Value) :
    setProperty recv key w = setObject obj recv key w := by
  cases recv with
  | object id | closure c =>
    cases h
    rfl
  | _ => cases h

theorem exec_getObject_own (hs : s.Sound) (h : DataAt (s.objects obj).links key i l v)
    (recv : Value) : (getObject obj recv key).exec s = (.ret v, s) := by
  simp [getObject, read, perform, HeapOp.run, getAlongChain_own hs h, fetched]

theorem exec_setObject_plain (hplain : (s.objects obj).array = none ∨ key.Plain) (recv w : Value) :
    (setObject obj recv key w).exec s = (stored recv key w (s.setAlongChain obj key w).1).exec
        (s.setAlongChain obj key w).2 := by
  rcases hplain with harray | ⟨hlength, hidx⟩
  · simp [setObject, read, perform, HeapOp.run, harray]
  · cases harray : (s.objects obj).array <;>
      simp [setObject, read, perform, HeapOp.run, harray, hlength, hidx]

end Own

namespace Machine

variable {M : Machine} {obj : ObjectId} {site : Site} {key : PropertyKey}

/-- The receiver's slot for the key is the one that was installed. -/
def SameSlot (M : Machine) (site : Site) (obj : ObjectId) (key : PropertyKey) : Prop :=
  findOwnSlot (M.heap.objects obj).links key = some (M.feedback site).icSlot

theorem slotHit_dataAt (hM : M.Ok) (hs : M.heap.Sound) {slot : Slot}
    (h : M.slotHit site obj = some slot) (hkey : M.SameSlot site obj key) :
    ∃ l v, slot = .data v ∧ l.attrs.writable = true ∧
      DataAt (M.heap.objects obj).links key (M.feedback site).icSlot l v := by
  obtain ⟨key', l, -, hfind, hlink', hslot, hlive, hwritable, hacc⟩ := slotHit_link hM h
  have hlink : ownLink (M.heap.objects obj).links key = some l := by
    rw [← slotAt_findOwnSlot hkey, slotAt_findOwnSlot hfind, hlink']
  have htyped := hs.typed obj l (ownLink_mem hlink)
  unfold Link.Typed at htyped
  cases hdata : l.slot with
  | hole => exact absurd hdata hlive
  | data v => exact ⟨l, v, hslot ▸ hdata, hwritable, hkey, hlink, hdata, hacc⟩
  | accessor getter setter =>
    rw [hdata, hacc] at htyped
    cases htyped

theorem sameSlot_global (hM : M.Ok) {pc : Nat} {name : PropertyKey} {slot : Slot}
    (h : M.slotHit (.global pc name) obj = some slot) :
    M.SameSlot (.global pc name) obj name := by
  obtain ⟨key, l, hname, hfind, -⟩ := slotHit_link hM h
  exact hname pc name rfl ▸ hfind

/-- The transition appends the property a definition of the key would: the key with the
default attributes, on an object whose lookups find no own property and no accessor. -/
def Appends (M : Machine) (obj : ObjectId) (key : PropertyKey) (t : Transition) : Prop :=
  t.added = (key, kDefaultDataAttrs) ∧
    ((M.heap.objects obj).array = none ∨ key.Plain) ∧ M.heap.defines obj key = true

/-- The condition on an instruction, at the state before it. -/
def Licensed (M : Machine) : Instruction → Prop
  | .getProperty pc recv key => ∀ obj, objectOfValue recv = some obj →
      (M.slotHit (.property pc) obj).isSome = true → M.SameSlot (.property pc) obj key
  | .setProperty pc recv key _ => ∀ obj, objectOfValue recv = some obj →
      ((M.slotHit (.property pc) obj).isSome = true → M.SameSlot (.property pc) obj key) ∧
      ∀ t, M.slotHit (.property pc) obj = none →
        M.transitionHit (.property pc) obj key = some t → M.Appends obj key t
  | _ => True

section

variable {slot : Slot} {recv : Value} (hM : M.Ok) (hs : M.heap.Sound)
  (hrecv : objectOfValue recv = some obj) (h : M.slotHit site obj = some slot)
  (hkey : M.SameSlot site obj key)
include hM hs hrecv h hkey

theorem exec_getProperty_hit :
    ∃ v, slot = .data v ∧ (getProperty recv key).exec M.heap = (.ret v, M.heap) := by
  obtain ⟨l, v, hslot, -, hdata⟩ := slotHit_dataAt hM hs h hkey
  refine ⟨v, hslot, ?_⟩
  rw [getProperty_object hrecv]
  exact exec_getObject_own hs hdata recv

theorem exec_setProperty_hit (w : Value) :
    (setProperty recv key w).exec M.heap = (.ret true, M.writeCached site obj w) := by
  obtain ⟨l, v, -, hwritable, hdata⟩ := slotHit_dataAt hM hs h hkey
  rw [setProperty_object hrecv, exec_setObject_plain (plain_of_link hs hdata.link),
    setAlongChain_own hs hdata hwritable]
  rfl

end

theorem exec_setProperty_appends {t : Transition} {recv : Value}
    (hrecv : objectOfValue recv = some obj) (h : M.Appends obj key t) (w : Value) :
    (setProperty recv key w).exec M.heap = (.ret true, M.takeTransition obj t w) := by
  obtain ⟨hadded, hplain, hdefines⟩ := h
  have hpush : M.heap.defineProperty obj key w = M.takeTransition obj t w := by
    unfold defineProperty takeTransition
    rw [hadded]
    rcases hplain with harray | ⟨hlength, hidx⟩
    · rw [harray]
    · cases (M.heap.objects obj).array <;> simp [hidx, hlength]
  have hset : M.heap.setAlongChain obj key w = (.wrote, M.takeTransition obj t w) := by
    rw [← hpush]
    exact setAlongChain_of_defines hdefines w
  rw [setProperty_object hrecv, exec_setObject_plain hplain, hset]
  rfl

/-- The machines agree but for what is cached and what is to be installed. -/
structure Agrees (M N : Machine) : Prop where
  heap : M.heap = N.heap
  stack : M.stack.map Suspended.next = N.stack.map Suspended.next

theorem Agrees.settle {N : Machine} (h : M.Agrees N) (install install' : Install)
    (halt : Halt Answer × Isolate) :
    (M.settle install halt).1 = (N.settle install' halt).1 ∧
      (M.settle install halt).2.Agrees (N.settle install' halt).2 := by
  obtain ⟨stop, s⟩ := halt
  cases stop with
  | ret a | throw e | stuck => exact ⟨rfl, rfl, h.stack⟩
  | call q next => exact ⟨rfl, rfl, congrArg (List.cons next) h.stack⟩

/-- Under the condition a hit is what the instruction does where nothing is cached. -/
theorem hit_agrees (hM : M.Ok) (hs : M.heap.Sound) {i : Instruction} (hi : M.Licensed i)
    {result : Observation × Machine} (h : M.hit i = some result) :
    ∃ a s, result = (.ret a, { M with heap := s }) ∧ i.proc.exec M.heap = (.ret a, s) := by
  cases hit_case h with
  | getProperty pc recv key obj slot obs hrecv hslot hobs =>
    obtain ⟨v, rfl, hexec⟩ :=
      exec_getProperty_hit hM hs hrecv hslot (hi obj hrecv (by simp [hslot]))
    rw [hobs v rfl]
    exact ⟨.value v, M.heap, rfl, exec_map_of_ret _ _ hexec⟩
  | loadGlobal pc name slot obs hslot hobs =>
    have hrecv : objectOfValue (.object M.heap.global) = some M.heap.global := rfl
    obtain ⟨v, rfl, hexec⟩ :=
      exec_getProperty_hit hM hs hrecv hslot (sameSlot_global hM hslot)
    rw [hobs v rfl]
    exact ⟨.value v, M.heap, rfl, exec_map_of_ret _ _ hexec⟩
  | setProperty pc recv key v obj slot hrecv hslot =>
    have hexec := exec_setProperty_hit hM hs hrecv hslot ((hi obj hrecv).1 (by simp [hslot])) v
    exact ⟨.bool true, _, rfl, exec_map_of_ret _ _ hexec⟩
  | transition pc recv key v obj t hrecv hslot ht =>
    have hexec := exec_setProperty_appends hrecv ((hi obj hrecv).2 t hslot ht) v
    exact ⟨.bool true, _, rfl, exec_map_of_ret _ _ hexec⟩
  | storeGlobal pc name v slot hslot =>
    have hrecv : objectOfValue (.object M.heap.global) = some M.heap.global := rfl
    have hexec := exec_setProperty_hit hM hs hrecv hslot (sameSlot_global hM hslot) v
    exact ⟨.bool true, _, rfl, exec_map_of_ret _ _ hexec⟩

/-- Under the condition an instruction does with recording what it does without. -/
theorem step_agrees (hM : M.Ok) (hs : M.heap.Sound) {N : Machine} (h : M.Agrees N)
    (i : Instruction) (hi : M.Licensed i) :
    (M.step true i).1 = (N.step false i).1 ∧ (M.step true i).2.Agrees (N.step false i).2 := by
  by_cases hres : ∃ r, i = .resume r
  · obtain ⟨r, rfl⟩ := hres
    have hstack := h.stack
    cases hm : M.stack with
    | nil =>
      have hn : N.stack = [] := by simpa [hm] using hstack
      simp only [step, hm, hn]
      exact ⟨trivial, h⟩
    | cons f rest =>
      cases hn : N.stack with
      | nil => simp [hm, hn] at hstack
      | cons g rest' =>
        simp only [hm, hn, List.map_cons, List.cons.injEq] at hstack
        simp only [step, hm, hn, hstack.1, h.heap]
        have hrest : Agrees { M with stack := rest } { N with stack := rest' } :=
          ⟨h.heap, hstack.2⟩
        exact hrest.settle _ _ _
  · rw [step_other M true (not_exists.mp hres), step_other N false (not_exists.mp hres),
      if_pos rfl, if_neg Bool.false_ne_true]
    cases hhit : M.hit i with
    | none =>
      unfold miss
      rw [Option.getD_none, h.heap]
      exact h.settle _ _ _
    | some result =>
      obtain ⟨a, s, rfl, hexec⟩ := hit_agrees hM hs hi hhit
      have hslow : N.miss .nothing i = N.settle .nothing (.ret a, s) := by
        unfold miss
        rw [← h.heap, hexec]
      rw [Option.getD_some, hslow]
      exact ⟨rfl, rfl, h.stack⟩

theorem step_sound (hM : M.Ok) (hs : M.heap.Sound) (i : Instruction) (hi : M.Licensed i) :
    (M.step true i).2.heap.Sound := by
  have hstep := step_case M true i
  generalize M.step true i = result at hstep ⊢
  cases hstep with
  | hit _ _ h =>
    obtain ⟨a, s, rfl, hexec⟩ := hit_agrees hM hs hi h
    have hsound := exec_sound i.proc hs
    rw [hexec] at hsound
    exact hsound
  | idle => exact hs
  | resume r f rest =>
    rw [heap_settle]
    exact exec_sound _ hs
  | run install =>
    unfold miss
    rw [heap_settle]
    exact exec_sound _ hs

end Machine

/-- Every instruction of the first `n` meets the condition at its state. -/
def LicensedRun (s : Isolate) (client : Client) (n : Nat) : Prop :=
  ∀ m < n, (runClient true s client m).1.Licensed (client (runClient true s client m).2)

theorem runClient_agrees {s : Isolate} (hs : s.Sound) (client : Client) (n : Nat)
    (h : LicensedRun s client n) :
    (runClient true s client n).1.heap.Sound ∧
      (runClient true s client n).2 = (runClient false s client n).2 ∧
      (runClient true s client n).1.Agrees (runClient false s client n).1 := by
  induction n with
  | zero => exact ⟨hs, rfl, rfl, rfl⟩
  | succ n ih =>
    obtain ⟨hsound, hseen, hagrees⟩ := ih fun m hm => h m (Nat.lt_succ_of_lt hm)
    have hok := runClient_ok true s client n
    have hi := h n (Nat.lt_succ_self n)
    obtain ⟨hobs, hnext⟩ := Machine.step_agrees hok hsound hagrees _ hi
    refine ⟨Machine.step_sound hok hsound _ hi, ?_, ?_⟩
    · simp only [runClient]
      rw [← hseen, hobs]
    · simp only [runClient]
      rw [← hseen]
      exact hnext

theorem sound_pointIsolate : pointIsolate.Sound where
  typed id l hl := by
    simp only [pointIsolate] at hl
    split at hl
    · rcases List.mem_cons.mp hl with rfl | hl
      · rfl
      · rcases List.mem_cons.mp hl with rfl | hl
        · rfl
        · cases hl
    · cases hl
  plain id harray := by
    simp only [pointIsolate] at harray
    split at harray <;> exact absurd rfl harray
  allocated_pos := by decide

/-- Reads of these keys in turn, all at one site. -/
def readKeys (keys : List String) : Client := fun seen =>
  .getProperty 0 (.object 1) (nameKey (keys.getD seen.length ""))

instance (M : Machine) (site : Site) (obj : ObjectId) (key : PropertyKey) :
    Decidable (M.SameSlot site obj key) :=
  inferInstanceAs (Decidable (_ = _))

end B2Compiler.Ts
