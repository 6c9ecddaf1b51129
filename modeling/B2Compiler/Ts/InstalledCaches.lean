import B2Compiler.Ts.HeapSteps
import B2Compiler.Ts.PropertyCaches

/-!
# What the caches hold

In every run an installed shape has, at the installed slot, the newest link of some key,
a writable data property; at a global site that key is the name.  Feedback says nothing
about one heap, so no change of a heap spoils it.
-/

namespace B2Compiler.Ts

open Lib Option Function

/-! ## One feedback slot -/

def Site.Names (site : Site) (key : PropertyKey) : Prop :=
  ∀ pc name, site = .global pc name → key = name

/-- An installed shape has at the installed slot the newest link of some key, a writable
data property; at a global site the key is the name. -/
def FeedbackSlot.Ok (site : Site) (fs : FeedbackSlot) : Prop :=
  ∀ links, fs.icShape = some (shapeOf links) →
    ∃ key l, site.Names key ∧ findOwnSlot links key = some fs.icSlot ∧
      ownLink links key = some l ∧ l.attrs.writable = true ∧ l.attrs.isAccessor = false

/-- What is still to be installed respects the names of global sites. -/
def Install.Named : Install → Prop
  | .nothing => True
  | .load site _ key | .store site _ key _ => site.Names key

section Feedback

variable {fs : FeedbackSlot} {site : Site} {o : Object} {key : PropertyKey}

theorem Site.names_property (pc : Nat) (key : PropertyKey) : (Site.property pc).Names key :=
  nofun

theorem Site.names_global (pc : Nat) (name : PropertyKey) : (Site.global pc name).Names name := by
  intro pc' name' h
  cases h
  rfl

theorem FeedbackSlot.ok_empty (site : Site) : FeedbackSlot.Ok site {} := nofun

/-- The newest link of a key has the same attributes in every object of the shape. -/
theorem ownLink_of_shapeOf {links others : List Link} {l : Link}
    (h : shapeOf links = shapeOf others) (hlink : ownLink links key = some l) :
    ∃ l', ownLink others key = some l' ∧ l'.attrs = l.attrs := by
  obtain ⟨i, hfind⟩ := findOwnSlot_of_ownLink hlink
  have hfind' : findOwnSlot others key = some i := findOwnSlot_of_shapeOf h ▸ hfind
  have hat := slotAt_of_shapeOf (i := i) h
  rw [slotAt_findOwnSlot hfind, slotAt_findOwnSlot hfind', hlink] at hat
  cases hother : ownLink others key with
  | none => simp [hother] at hat
  | some l' =>
    simp only [hother, map_some, Option.some.injEq, Prod.mk.injEq] at hat
    exact ⟨l', rfl, hat.2.symm⟩

theorem FeedbackSlot.Ok.installPropertyIc (h : fs.Ok site) (hkey : site.Names key) :
    (fs.installPropertyIc o key).Ok site := by
  unfold FeedbackSlot.installPropertyIc
  cases hown : ownDataSlotAttrs o.links key with
  | none => exact h
  | some found =>
    obtain ⟨i, a⟩ := found
    obtain ⟨l, hfind, hlink, hattrs, -, hacc⟩ := ownDataSlotAttrs_eq_some hown
    by_cases hwritable : a.writable = true
    · simp only [hwritable, if_true]
      intro links hshape
      have hsame : shapeOf o.links = shapeOf links := Option.some.inj hshape
      obtain ⟨l', hlink', hattrs'⟩ := ownLink_of_shapeOf hsame hlink
      refine ⟨key, l', hkey, ?_, hlink', ?_, ?_⟩
      · rw [← findOwnSlot_of_shapeOf hsame]
        exact hfind
      · rw [hattrs', hattrs, hwritable]
      · rw [hattrs', hattrs, hacc]
    · simpa [hwritable] using h

theorem FeedbackSlot.Ok.installTransition (h : fs.Ok site) (before : Shape) (epoch : Nat) :
    (fs.installTransition o before key epoch).Ok site := by
  unfold FeedbackSlot.installTransition
  cases o.shape with
  | nil => exact h
  | cons added parent =>
    simp only
    split
    · exact h
    · exact h

theorem Install.apply_ok {feedback : Site → FeedbackSlot} (s : Isolate) {install : Install}
    (hname : install.Named) (h : ∀ site, (feedback site).Ok site) (site : Site) :
    (install.apply s feedback site).Ok site := by
  cases install with
  | nothing => exact h site
  | load site' obj key =>
    simp only [Install.apply]
    by_cases hsite : site = site'
    · rw [hsite, Function.update_self]
      exact (h site').installPropertyIc hname
    · rw [Function.update_of_ne hsite]
      exact h site
  | store site' obj key before =>
    simp only [Install.apply]
    by_cases hsite : site = site'
    · rw [hsite, Function.update_self]
      exact ((h site').installPropertyIc hname).installTransition before s.accessorEpoch
    · rw [Function.update_of_ne hsite]
      exact h site

end Feedback

namespace Machine

/-- The invariant of the feedback, and of what is still to be installed. -/
structure Ok (M : Machine) : Prop where
  feedback : ∀ site, (M.feedback site).Ok site
  stack : ∀ f ∈ M.stack, f.install.Named

variable {M : Machine} {obj : ObjectId} {site : Site} {key : PropertyKey}

theorem Ok.start (s : Isolate) : Ok { heap := s } := ⟨FeedbackSlot.ok_empty, nofun⟩

theorem named_install (M : Machine) (i : Instruction) : (M.install i).Named := by
  cases i with
  | getProperty pc recv key | setProperty pc recv key v =>
    simp only [install]
    cases objectOfValue recv with
    | none => exact trivial
    | some obj => exact Site.names_property pc key
  | loadGlobal pc name | storeGlobal pc name v => exact Site.names_global pc name
  | _ => exact trivial

theorem Ok.settle (hM : M.Ok) {install : Install} (hname : install.Named)
    (halt : Halt Answer × Isolate) : (M.settle install halt).2.Ok := by
  obtain ⟨stop, s⟩ := halt
  cases stop with
  | ret a => exact ⟨Install.apply_ok s hname hM.feedback, hM.stack⟩
  | throw e | stuck => exact ⟨hM.feedback, hM.stack⟩
  | call q next =>
    refine ⟨hM.feedback, fun f hf => ?_⟩
    rcases List.mem_cons.mp hf with rfl | hf
    · exact hname
    · exact hM.stack f hf

theorem heap_settle (M : Machine) (install : Install) (halt : Halt Answer × Isolate) :
    (M.settle install halt).2.heap = halt.2 := by
  obtain ⟨stop, s⟩ := halt
  cases stop <;> rfl

inductive HitCase (M : Machine) : Instruction → Observation × Machine → Prop where
  | getProperty (pc : Nat) (recv : Value) (key : PropertyKey) (obj : ObjectId) (slot : Slot)
      (obs : Observation) (hrecv : objectOfValue recv = some obj)
      (hslot : M.slotHit (.property pc) obj = some slot)
      (hobs : ∀ v, slot = .data v → obs = .ret (.value v)) :
      HitCase M (.getProperty pc recv key) (obs, M)
  | loadGlobal (pc : Nat) (name : PropertyKey) (slot : Slot) (obs : Observation)
      (hslot : M.slotHit (.global pc name) M.heap.global = some slot)
      (hobs : ∀ v, slot = .data v → obs = .ret (.value v)) :
      HitCase M (.loadGlobal pc name) (obs, M)
  | setProperty (pc : Nat) (recv : Value) (key : PropertyKey) (v : Value) (obj : ObjectId)
      (slot : Slot) (hrecv : objectOfValue recv = some obj)
      (hslot : M.slotHit (.property pc) obj = some slot) :
      HitCase M (.setProperty pc recv key v)
        (.ret (.bool true), { M with heap := M.writeCached (.property pc) obj v })
  | transition (pc : Nat) (recv : Value) (key : PropertyKey) (v : Value) (obj : ObjectId)
      (t : Transition) (hrecv : objectOfValue recv = some obj)
      (hslot : M.slotHit (.property pc) obj = none)
      (ht : M.transitionHit (.property pc) obj key = some t) :
      HitCase M (.setProperty pc recv key v)
        (.ret (.bool true), { M with heap := M.takeTransition obj t v })
  | storeGlobal (pc : Nat) (name : PropertyKey) (v : Value) (slot : Slot)
      (hslot : M.slotHit (.global pc name) M.heap.global = some slot) :
      HitCase M (.storeGlobal pc name v) (.ret (.bool true),
        { M with heap := M.writeCached (.global pc name) M.heap.global v })

theorem loadHit_case {recv : Value} {result : Observation × Machine}
    (h : M.loadHit site recv = some result) :
    ∃ obj slot obs, objectOfValue recv = some obj ∧ M.slotHit site obj = some slot ∧
      (∀ v, slot = .data v → obs = .ret (.value v)) ∧ result = (obs, M) := by
  unfold loadHit at h
  cases hslot : (objectOfValue recv).bind (M.slotHit site) with
  | none => simp [hslot] at h
  | some slot =>
    obtain ⟨obj, hrecv, hobj⟩ := bind_eq_some_iff.mp hslot
    rw [hslot] at h
    cases slot with
    | data v =>
      cases h
      exact ⟨obj, .data v, _, hrecv, hobj, fun w hw => by cases hw; rfl, rfl⟩
    | _ =>
      cases h
      exact ⟨obj, _, .stuck, hrecv, hobj, nofun, rfl⟩

theorem hit_case {i : Instruction} {result : Observation × Machine}
    (h : M.hit i = some result) : M.HitCase i result := by
  cases i with
  | getProperty pc recv key =>
    obtain ⟨obj, slot, obs, hrecv, hslot, hobs, rfl⟩ := loadHit_case h
    exact .getProperty pc recv key obj slot obs hrecv hslot hobs
  | loadGlobal pc name =>
    obtain ⟨obj, slot, obs, hrecv, hslot, hobs, rfl⟩ := loadHit_case h
    cases hrecv
    exact .loadGlobal pc name slot obs hslot hobs
  | setProperty pc recv key v =>
    simp only [hit, storeHit] at h
    cases hrecv : objectOfValue recv with
    | none => simp [hrecv] at h
    | some obj =>
      simp only [hrecv] at h
      cases hslot : M.slotHit (.property pc) obj with
      | some slot =>
        simp only [hslot, isSome_some, if_true] at h
        cases h
        exact .setProperty pc recv key v obj slot hrecv hslot
      | none =>
        simp only [hslot, isSome_none, Bool.false_eq_true, if_false] at h
        cases ht : M.transitionHit (.property pc) obj key with
        | none => simp [ht] at h
        | some t =>
          simp only [ht] at h
          cases h
          exact .transition pc recv key v obj t hrecv hslot ht
  | storeGlobal pc name v =>
    simp only [hit, storeGlobalHit] at h
    cases hslot : M.slotHit (.global pc name) M.heap.global with
    | none => simp [hslot] at h
    | some slot =>
      simp only [hslot, isSome_some, if_true] at h
      cases h
      exact .storeGlobal pc name v slot hslot
  | _ => simp [hit] at h

/-! ## Steps -/

/-- The ways an instruction comes out: a hit, an empty stack, or the end of a procedure. -/
inductive StepCase (M : Machine) (recording : Bool) (i : Instruction) :
    Observation × Machine → Prop where
  | hit (result : Observation × Machine) (hrecording : recording = true)
      (h : M.hit i = some result) : StepCase M recording i result
  | idle (r : Reply) (hi : i = .resume r) (hstack : M.stack = []) :
      StepCase M recording i (.idle, M)
  | resume (r : Reply) (f : Suspended) (rest : List Suspended) (hi : i = .resume r)
      (hstack : M.stack = f :: rest) :
      StepCase M recording i
        (({ M with stack := rest } : Machine).settle f.install ((f.next r).exec M.heap))
  | run (install : Install) (hinstall : install = .nothing ∨ install = M.install i) :
      StepCase M recording i (M.miss install i)

theorem step_other (M : Machine) (recording : Bool) {i : Instruction} (hi : ∀ r, i ≠ .resume r) :
    M.step recording i =
      if recording then (M.hit i).getD (M.miss (M.install i) i) else M.miss .nothing i := by
  cases i with
  | resume r => exact absurd rfl (hi r)
  | _ => rfl

theorem step_case (M : Machine) (recording : Bool) (i : Instruction) :
    M.StepCase recording i (M.step recording i) := by
  by_cases hi : ∃ r, i = .resume r
  · obtain ⟨r, rfl⟩ := hi
    cases hstack : M.stack with
    | nil =>
      have hidle : M.step recording (.resume r) = (.idle, M) := by simp [step, hstack]
      rw [hidle]
      exact .idle r rfl hstack
    | cons f rest =>
      have hresume : M.step recording (.resume r) = ({ M with stack := rest } : Machine).settle
          f.install ((f.next r).exec M.heap) := by simp [step, hstack]
      rw [hresume]
      exact .resume r f rest rfl hstack
  · rw [step_other M recording (not_exists.mp hi)]
    cases recording with
    | false => exact .run .nothing (Or.inl rfl)
    | true =>
      rw [if_pos rfl]
      cases hhit : M.hit i with
      | none => exact .run _ (Or.inr rfl)
      | some result => exact .hit result rfl hhit

theorem step_ok (hM : M.Ok) (recording : Bool) (i : Instruction) : (M.step recording i).2.Ok := by
  have hstep := step_case M recording i
  generalize M.step recording i = result at hstep ⊢
  cases hstep with
  | hit _ hrecording h =>
    cases hit_case h with
    | getProperty | loadGlobal => exact hM
    | setProperty | transition | storeGlobal => exact ⟨hM.feedback, hM.stack⟩
  | idle => exact hM
  | resume r f rest hi hstack =>
    have hrest : Ok { M with stack := rest } :=
      ⟨hM.feedback, fun g hg => hM.stack g (hstack ▸ List.mem_cons_of_mem _ hg)⟩
    exact hrest.settle (hM.stack f (hstack ▸ List.mem_cons_self)) _
  | run install hinstall =>
    have hnothing : Install.Named .nothing := trivial
    rcases hinstall with rfl | rfl
    · exact hM.settle hnothing _
    · exact hM.settle (named_install M i) _

theorem slotHit_link (hM : M.Ok) {slot : Slot} (h : M.slotHit site obj = some slot) :
    ∃ key l, site.Names key ∧
      findOwnSlot (M.heap.objects obj).links key = some (M.feedback site).icSlot ∧
      ownLink (M.heap.objects obj).links key = some l ∧ l.slot = slot ∧ l.slot ≠ .hole ∧
      l.attrs.writable = true ∧ l.attrs.isAccessor = false := by
  unfold slotHit FeedbackSlot.cached at h
  split at h
  · rename_i hguard
    obtain ⟨key, l, hname, hfind, hlink, hwritable, hacc⟩ :=
      hM.feedback site (M.heap.objects obj).links hguard.1
    rw [slotAt_findOwnSlot hfind, hlink] at h
    simp only at h
    split at h
    · cases h
    · rename_i hlive
      cases h
      exact ⟨key, l, hname, hfind, hlink, rfl, hlive, hwritable, hacc⟩
  · cases h

end Machine

theorem runClient_ok (recording : Bool) (s : Isolate) (client : Client) (n : Nat) :
    (runClient recording s client n).1.Ok := by
  induction n with
  | zero => exact .start s
  | succ n ih => exact Machine.step_ok ih recording _

end B2Compiler.Ts
