import B2Compiler.Interp.StepShape

/-!
# What one step of the interpreter can do

An inversion of the dispatch loop's step over all its handlers: a step changes
the innermost frame in place, starts a class initializer, pushes the frame of a
call, lands in an exception handler, returns to the caller, or ends the run.
Every invariant of the frames and the class registry over whole runs is derived from this one
case analysis.
-/

namespace B2Compiler.Interp

open Rbc Runtime

/-- Evaluate a predicate of the instruction the machine is about to execute. -/
def atFetch {α : Type} (E : Env) (m : Machine) (d : α) (q : Frame → Ins → α) : α :=
  match m.frames with
  | [] => d
  | f :: _ =>
    match fetch E f with
    | some ins => q f ins
    | none => d

/-- Is the machine about to use the program class for initialisation? -/
def triggers (E : Env) (m : Machine) : Bool := atFetch E m false (initTrigger E m.rt)

/-- The method the machine is about to call. -/
def callTarget (E : Env) (m : Machine) : Option Nat := atFetch E m none (invokeTarget E m)

theorem atFetch_eq {α : Type} {E : Env} {m : Machine} {f : Frame} {rest : List Frame} {ins : Ins}
    {d : α} {q : Frame → Ins → α} (hf : m.frames = f :: rest) (hins : fetch E f = some ins) :
    atFetch E m d q = q f ins := by
  unfold atFetch
  rw [hf]
  dsimp only
  rw [hins]

/-! ## Machines that differ inside an instruction -/

/-- `m₁` has the frames of `m` and a runtime reached by services. -/
structure Near (m m₁ : Machine) : Prop where
  frames : m₁.frames = m.frames
  keeps : m.rt.Keeps m₁.rt
  programClass : m₁.programClass = m.programClass

namespace Near

variable {m m₁ : Machine}

theorem refl (m : Machine) : Near m m := ⟨rfl, .refl _, rfl⟩

theorem withRt (h : Near m m₁) {rt : Runtime} (hk : m₁.rt.Keeps rt) : Near m { m₁ with rt } :=
  ⟨h.frames, h.keeps.trans hk, h.programClass⟩

theorem setHeap (h : Near m m₁) (heap : Heap) : Near m (m₁.setHeap heap) :=
  h.withRt (keeps_heap _ heap)

theorem count (h : Near m m₁) (cfg : InterpConfig) (g : InterpStats → InterpStats) :
    Near m (m₁.count cfg g) := by
  unfold Machine.count
  split
  · exact ⟨h.frames, h.keeps, h.programClass⟩
  · exact h

theorem withICs (h : Near m m₁) (ics : List (List SiteIC)) : Near m { m₁ with siteICs := ics } :=
  ⟨h.frames, h.keeps, h.programClass⟩

theorem record (h : Near m m₁) (mIdx site : Nat) (kind : DispatchSiteKind) (r t : Nat) :
    Near m (recordDispatch mIdx site kind r t m₁) :=
  ⟨h.frames, h.keeps, h.programClass⟩

end Near

/-- The outcomes of a step from `m`. -/
inductive Stepped (E : Env) (m : Machine) : Flow → Prop where
  /-- The innermost frame changed in place. -/
  | stay {f f' : Frame} {rest : List Frame} {m' : Machine} (hframes : m.frames = f :: rest)
      (hframes' : m'.frames = f' :: rest) (hmethod : f'.method = f.method)
      (hkeeps : m.rt.Keeps m'.rt) (hclass : m'.programClass = m.programClass)
      (hregs : f'.regs.length = f.regs.length) : Stepped E m (.running m')
  /-- A trigger found the class uninitialised. -/
  | init {f : Frame} {rest : List Frame} {m₁ : Machine} {cls : Nat}
      (hframes : m.frames = f :: rest) (hnear : Near m m₁) (htrigger : triggers E m = true)
      (hneeds : m₁.rt.needsInit E.program cls = true) : Stepped E m (pushClinit E m₁ f cls)
  /-- The frame of a call was pushed. -/
  | call {g : Frame} {m' : Machine} (hframes : m'.frames = g :: m.frames)
      (htarget : callTarget E m = some g.method) (hkeeps : m.rt.Keeps m'.rt)
      (hclass : m'.programClass = m.programClass)
      (hregs : g.regs.length = (method E.program g.method).numRegs) :
      Stepped E m (.running m')
  /-- An exception was caught, in the innermost frame or further out. -/
  | caught {inner rest : List Frame} {g : Frame} {h : ExceptionHandler} {exc : Nat}
      {m' : Machine} (hframes : m.frames = inner ++ g :: rest)
      (hframes' : m'.frames = enterHandler (method E.program g.method) g h exc :: rest)
      (hmem : h ∈ (method E.program g.method).handlers)
      (hcovers : h.start ≤ g.pc ∧ g.pc < h.stop)
      (hkeeps : m.rt.Keeps m'.rt) (hclass : m'.programClass = m.programClass) :
      Stepped E m (.running m')
  /-- The innermost frame returned. -/
  | ret {f caller : Frame} {rest : List Frame} {isVoid : Bool} {v : Value} {m' : Machine}
      (hframes : m.frames = f :: caller :: rest)
      (hframes' : m'.frames = resumeCaller E.program (method E.program f.method)
        isVoid v caller :: rest)
      (hkeeps : m.rt.Keeps m'.rt) (hclass : m'.programClass = m.programClass) :
      Stepped E m (.running m')
  | ended {status : RunStatus} {m' : Machine} (hkeeps : m.rt.Keeps m'.rt) :
      Stepped E m (.ended status m')
  | undefined : Stepped E m .undefined

/-- The outcomes of throwing an exception from `m`. -/
inductive Thrown (E : Env) (m : Machine) : Flow → Prop where
  | caught {inner rest : List Frame} {g : Frame} {h : ExceptionHandler} {exc : Nat}
      {m' : Machine} (hframes : m.frames = inner ++ g :: rest)
      (hframes' : m'.frames = enterHandler (method E.program g.method) g h exc :: rest)
      (hmem : h ∈ (method E.program g.method).handlers)
      (hcovers : h.start ≤ g.pc ∧ g.pc < h.stop)
      (hkeeps : m.rt.Keeps m'.rt) (hclass : m'.programClass = m.programClass) :
      Thrown E m (.running m')
  | ended {status : RunStatus} {m' : Machine} (hkeeps : m.rt.Keeps m'.rt) :
      Thrown E m (.ended status m')

theorem Thrown.stepped {E : Env} {m : Machine} {flow : Flow} (h : Thrown E m flow) :
    Stepped E m flow := by
  cases h with
  | caught hframes hframes' hmem hcovers hkeeps hclass =>
    exact .caught hframes hframes' hmem hcovers hkeeps hclass
  | ended hkeeps => exact .ended hkeeps

section Handlers

variable {E : Env} {m m₁ : Machine} {f : Frame} {rest : List Frame} {ins : Ins}

/-! ## Exceptions -/

theorem findHandler_spec (meth : Method) (pc exc : Nat) (hs : List ExceptionHandler) :
    ∀ (rt : Runtime) h, (findHandler meth pc exc hs rt).1 = some h →
      h ∈ hs ∧ h.start ≤ pc ∧ pc < h.stop := by
  induction hs with
  | nil => exact fun rt h hh => by cases hh
  | cons h hs ih =>
    intro rt h' hh
    have hskip : ∀ rt', (findHandler meth pc exc hs rt').1 = some h' →
        h' ∈ h :: hs ∧ h'.start ≤ pc ∧ pc < h'.stop := by
      intro rt' hh'
      exact ⟨List.mem_cons_of_mem _ (ih rt' h' hh').1, (ih rt' h' hh').2⟩
    rw [findHandler] at hh
    split at hh
    · exact hskip rt hh
    rename_i hcov
    have hin : some h = some h' → h' ∈ h :: hs ∧ h'.start ≤ pc ∧ pc < h'.stop := by
      intro hh'
      cases hh'
      exact ⟨List.mem_cons_self .., by omega, by omega⟩
    split at hh
    · exact hin hh
    · dsimp only at hh
      split at hh
      · exact hin hh
      · exact hskip _ hh

/-- Unwinding pops frames down to one with a covering handler. -/
theorem unwind_spec (p : Program) (exc : Nat) (frames : List Frame) :
    ∀ (rt : Runtime) fs, (unwind p exc frames rt).1 = some fs → ∃ inner g rest h,
      frames = inner ++ g :: rest ∧ fs = enterHandler (method p g.method) g h exc :: rest ∧
        h ∈ (method p g.method).handlers ∧ h.start ≤ g.pc ∧ g.pc < h.stop := by
  induction frames with
  | nil => exact fun rt fs h => by cases h
  | cons f rest ih =>
    intro rt fs hfs
    rw [unwind] at hfs
    have hfound := findHandler_spec (method p f.method) f.pc exc (method p f.method).handlers rt
    split at hfs
    · rename_i h rt' heq
      rw [heq] at hfound
      cases hfs
      exact ⟨[], f, rest, h, rfl, rfl, (hfound h rfl).1, (hfound h rfl).2⟩
    · obtain ⟨inner, g, rest', h, hsplit, hrest⟩ := ih _ fs hfs
      exact ⟨f :: inner, g, rest', h, by rw [hsplit]; rfl, hrest⟩

/-- Throwing lands in a handler or ends the run, also when the profile is written
behind it. -/
theorem thrown_map (h : Near m m₁) (exc : Nat) {g : Machine → Machine}
    (hg : ∀ m', Near m' (g m')) : Thrown E m ((throwException E m₁ exc).map g) := by
  have hcount := h.count E.cfg fun s => { s with exceptions := s.exceptions + 1 }
  unfold throwException
  dsimp only
  generalize m₁.count E.cfg (fun s => { s with exceptions := s.exceptions + 1 }) = m₂ at hcount
  have hspec := unwind_spec E.program exc m₂.frames m₂.rt
  have hkept := unwind_within keeps_primitives (fun _ _ => keeps_heap _ _) E.program exc m₂.frames
    m₂.rt
  split
  · rename_i fs rt heq
    rw [heq] at hspec hkept
    obtain ⟨inner, c, rest, hd, hsplit, hfs, hmem, hcov⟩ := hspec fs rfl
    rw [hcount.frames] at hsplit
    have hnear := hg { m₂ with frames := fs, rt := rt }
    exact .caught hsplit (hnear.frames.trans hfs) hmem hcov
      ((hcount.keeps.trans hkept).trans hnear.keeps)
      (hnear.programClass.trans hcount.programClass)
  · rename_i rt heq
    rw [heq] at hkept
    exact .ended (hcount.keeps.trans hkept)

theorem Flow.map_id (flow : Flow) : flow.map (fun m => m) = flow := by
  cases flow <;> rfl

theorem thrown_throw (h : Near m m₁) (exc : Nat) : Thrown E m (throwException E m₁ exc) := by
  rw [← Flow.map_id (throwException E m₁ exc)]
  exact thrown_map h exc Near.refl

theorem stepped_throw (h : Near m m₁) (exc : Nat) : Stepped E m (throwException E m₁ exc) :=
  (thrown_throw h exc).stepped

/-- The services leave the frames and the registry's past alone, and stay inside of any
relation that the primitives stay inside of. -/
theorem services_within {Q : Runtime → Runtime → Prop} (P : Primitives Q) (E : Env) (f : Frame)
    (ins : Ins) : Services E f ins fun m m₁ => Near m m₁ ∧ Q m.rt m₁.rt := by
  have K := keeps_primitives
  have within : ∀ {m : Machine} {rt : Runtime}, m.rt.Keeps rt → Q m.rt rt →
      Near m { m with rt } ∧ Q m.rt rt := fun hk hq => ⟨(Near.refl _).withRt hk, hq⟩
  have beside : ∀ {m m₁ : Machine}, Near m m₁ → m₁.rt = m.rt → Near m m₁ ∧ Q m.rt m₁.rt :=
    fun hnear hrt => ⟨hnear, hrt ▸ P.refl _⟩
  exact
    { refl := fun m => ⟨.refl m, P.refl m.rt⟩
      trans := fun ⟨h₁, hq₁⟩ ⟨h₂, hq₂⟩ =>
        ⟨⟨h₂.frames.trans h₁.frames, h₁.keeps.trans h₂.keeps,
          h₂.programClass.trans h₁.programClass⟩, P.trans hq₁ hq₂⟩
      count := fun m g => beside ((Near.refl m).count E.cfg g) (Machine.count_rt m E.cfg g)
      trace := fun m _ => beside ⟨rfl, .refl m.rt, rfl⟩ rfl
      record := fun _ => beside ((Near.refl _).record ..) rfl
      classId := fun m n => within (K.classId m.rt n) (P.classId m.rt n)
      resolveField := fun m c => within (K.resolveField m.rt c) (P.resolveField m.rt c)
      internString := fun m s => within (K.internString m.rt s) (P.internString m.rt s)
      classObject := fun m cls => within (K.classObject m.rt cls) (P.classObject m.rt cls)
      newInstance := fun m cls => within (K.newInstance m.rt cls) (P.newInstance m.rt cls)
      newArray := fun m t n => within (K.newArray m.rt t n) (P.newArray m.rt t n)
      newRefArray := fun m cls n => within (K.newRefArray m.rt cls n) (P.newRefArray m.rt cls n)
      newMultiArray := fun m cls dims =>
        within (K.newMultiArray m.rt cls dims) (P.newMultiArray m.rt cls dims)
      makeException := fun m cls msg =>
        within (K.makeException m.rt cls msg) (P.makeException m.rt cls msg)
      execBuiltin := fun h => within (K.execBuiltin h) (P.execBuiltin h)
      bumpBackedge := fun m id => within (K.bumpBackedge m.rt id) (P.bumpBackedge m.rt id)
      storeStatic := fun m id v => within (K.storeStatic m.rt id v) (P.storeStatic m.rt id v)
      loadField := fun m r slot => within (K.loadField m.rt r slot) (P.loadField m.rt r slot)
      storeField := fun h => within (K.storeField h) (P.storeField h)
      storeElem := fun h => within (K.storeElem h) (P.storeElem h)
      fillField := by
        intro m rf rt _ h
        have hk := K.resolveField m.rt (poolAt E f ins.immIdx)
        have hq := P.resolveField m.rt (poolAt E f ins.immIdx)
        rw [h] at hk hq
        exact ⟨((Near.refl m).withRt hk).withICs _, hq⟩
      fillCall := fun _ _ => beside ((Near.refl _).withICs _) rfl }

theorem stepped_stay {f' : Frame} (hf : m.frames = f :: rest) (h : Near m m₁)
    (hmethod : f'.method = f.method) (hregs : f'.regs.length = f.regs.length) :
    Stepped E m (.running (m₁.setTop f')) := by
  refine .stay hf (?_ : _ = f' :: rest) hmethod h.keeps h.programClass hregs
  show f' :: m₁.frames.tail = _
  rw [h.frames, hf]
  rfl

theorem stepped_pushCall {call : Ins} {t : Nat} (h : Near m m₁)
    (ht : callTarget E m = some t) (site : Nat) (kind : DispatchSiteKind) (r : Nat) :
    Stepped E m ((pushCall E m₁ f call t).map (recordDispatch f.method site kind r t)) := by
  have hrec : ∀ m' : Machine, Near m' (recordDispatch f.method site kind r t m') :=
    fun m' => (Near.refl m').record ..
  have htrap : ∀ cls msg, Stepped E m
      ((raise E m₁ cls msg).map (recordDispatch f.method site kind r t)) := fun cls msg =>
    (thrown_map (h.withRt (keeps_primitives.makeException m₁.rt cls msg)) _ hrec).stepped
  unfold pushCall
  dsimp only
  split
  · exact htrap _ _
  split
  · exact htrap _ _
  let g := calleeFrame (method E.program t) t call f
  have hpushed : Near { m with frames := g :: m.frames } { m₁ with frames := g :: m₁.frames } :=
    ⟨by rw [h.frames], h.keeps, h.programClass⟩
  have hcount := hpushed.count E.cfg fun s => { s with calls := s.calls + 1 }
  have hbump := hcount.withRt (keeps_primitives.bumpInvocations _ t)
  have hdone := hbump.record f.method site kind r t
  exact .call hdone.frames ht hdone.keeps hdone.programClass List.length_replicate

theorem stepped_return (hf : m.frames = f :: rest) : Stepped E m (execReturn E m f ins) := by
  unfold execReturn
  dsimp only
  split
  · exact .ended (keeps_heap _ _)
  rename_i caller rest' heq
  have hrest : rest = caller :: rest' := by
    have htail : m.frames.tail = caller :: rest' := heq
    rw [hf] at htail
    exact htail
  refine .ret (hf.trans (by rw [hrest])) rfl (keeps_heap _ _) rfl

/-- Every handler has one of the outcomes of a step. -/
theorem stepped_exec (hf : m.frames = f :: rest) (hins : fetch E f = some ins)
    (hreg : m.rt.Registered) : Stepped E m (exec E m f ins) := by
  have hshape := shape_exec (m := m) (services_within keeps_primitives E f ins)
  generalize exec E m f ins = flow at hshape
  cases hshape with
  | stay h hmethod _ hregs => exact stepped_stay hf h.1 hmethod hregs
  | enter _ _ | exit _ _ => exact stepped_stay hf ((Near.refl m).setHeap _) rfl rfl
  | init h _ hneeds htrigger =>
    refine .init hf h.1 ?_ hneeds
    rw [triggers, atFetch_eq hf hins]
    exact htrigger hreg
  | call h htarget =>
    apply stepped_pushCall h.1
    rw [callTarget, atFetch_eq hf hins]
    exact htarget
  | throws h => exact stepped_throw h.1 _
  | ret _ => exact stepped_return hf
  | undefined => exact .undefined

end Handlers

/-- The instruction counter is invisible to the cases of a step. -/
theorem stepped_of_count {E : Env} {m : Machine} {g : InterpStats → InterpStats} {flow : Flow}
    (h : Stepped E (m.count E.cfg g) flow) : Stepped E m flow := by
  unfold Machine.count at h
  split at h
  · cases h with
    | stay hframes hframes' hmethod hkeeps hclass hregs =>
      exact .stay hframes hframes' hmethod hkeeps hclass hregs
    | init hframes hnear htrigger hneeds =>
      exact .init hframes ⟨hnear.frames, hnear.keeps, hnear.programClass⟩ htrigger hneeds
    | call hframes htarget hkeeps hclass hregs => exact .call hframes htarget hkeeps hclass hregs
    | caught hframes hframes' hmem hcovers hkeeps hclass =>
      exact .caught hframes hframes' hmem hcovers hkeeps hclass
    | ret hframes hframes' hkeeps hclass => exact .ret hframes hframes' hkeeps hclass
    | ended hkeeps => exact .ended hkeeps
    | undefined => exact .undefined
  · exact h

/-- A step executes the instruction at the pc, on the machine with one more counted. -/
theorem step_fetched {E : Env} {m : Machine} {f : Frame} {rest : List Frame} {ins : Ins}
    (hf : m.frames = f :: rest) (hins : fetch E f = some ins) :
    ∃ m₁, Near m m₁ ∧ m₁.rt = m.rt ∧ step E m = exec E m₁ f ins := by
  refine ⟨_, (Near.refl m).count E.cfg fun s => { s with instructions := s.instructions + 1 },
    ?_, ?_⟩
  · unfold Machine.count
    split <;> rfl
  · simp only [step, hf, hins]

theorem stepped_step {E : Env} {m : Machine} (hreg : m.rt.Registered) : Stepped E m (step E m) := by
  unfold step
  split
  · exact .undefined
  rename_i f rest hf
  split
  · exact stepped_throw ((Near.refl m).withRt (keeps_primitives.makeException m.rt _ _)) _
  · rename_i ins hins
    have hcount := (Near.refl m).count E.cfg
      fun s => { s with instructions := s.instructions + 1 }
    exact stepped_of_count
      (stepped_exec (hcount.frames.trans hf) hins (hcount.keeps.registered hreg))

end B2Compiler.Interp
