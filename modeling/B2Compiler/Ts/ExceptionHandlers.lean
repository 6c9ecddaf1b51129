import B2Compiler.Ts.Dispatch

/-!
# Exceptions in a frame

An exception is a value in flight.  The frame it is raised in looks its program counter up
in the handler table of its function; a handler that is found gets control with the value
in its catch register, and the frame keeps the value for a later `Rethrow`.  Without one
the frame is gone and the exception is the caller's.
-/

namespace B2Compiler.Ts

open List

variable {V : Type}

/-! ## The handler table -/

def Handler.Protects (h : Handler) (pc : Nat) : Prop := h.startPc ≤ pc ∧ pc < h.endPc

def Handler.Inside (g h : Handler) : Prop := h.startPc ≤ g.startPc ∧ g.endPc ≤ h.endPc

/-- Any two ranges are disjoint, or one contains the other. -/
def Nested (handlers : List Handler) : Prop :=
  ∀ g ∈ handlers, ∀ h ∈ handlers, g.endPc ≤ h.startPc ∨ h.endPc ≤ g.startPc ∨
    g.Inside h ∨ h.Inside g

/-- `h` has the smallest of the ranges around `pc`. -/
def Smallest (handlers : List Handler) (pc : Nat) (h : Handler) : Prop :=
  h ∈ handlers ∧ h.Protects pc ∧
    ∀ g ∈ handlers, g.Protects pc → h.endPc - h.startPc ≤ g.endPc - g.startPc

/-- `h` is the last handler listed of those around `pc` that start latest. -/
structure LastOfLatest (handlers : List Handler) (pc : Nat) (h : Handler) : Prop where
  protects : h.Protects pc
  last : ∃ before after, handlers = before ++ h :: after ∧
    (∀ g ∈ before, g.Protects pc → g.startPc ≤ h.startPc) ∧
    ∀ g ∈ after, g.Protects pc → g.startPc < h.startPc

/-- Of the handlers around `pc` that start latest, the last one listed ends first. -/
def LastEndsFirst (handlers : List Handler) (pc : Nat) : Prop :=
  ∀ h, LastOfLatest handlers pc h → ∀ g ∈ handlers, g.Protects pc → g.startPc = h.startPc →
    h.endPc ≤ g.endPc

theorem LastOfLatest.mem {handlers : List Handler} {pc : Nat} {h : Handler}
    (hLast : LastOfLatest handlers pc h) : h ∈ handlers := by
  obtain ⟨before, after, rfl, -, -⟩ := hLast.last
  exact mem_append_right _ mem_cons_self

theorem LastOfLatest.latest {handlers : List Handler} {pc : Nat} {h g : Handler}
    (hLast : LastOfLatest handlers pc h) (hg : g ∈ handlers) (hPc : g.Protects pc) :
    g.startPc ≤ h.startPc := by
  obtain ⟨before, after, rfl, hBefore, hAfter⟩ := hLast.last
  rcases mem_append.mp hg with hg | hg
  · exact hBefore g hg hPc
  · rcases mem_cons.mp hg with rfl | hg
    · exact Nat.le_refl _
    · exact Nat.le_of_lt (hAfter g hg hPc)

theorem LastOfLatest.unique {handlers : List Handler} {pc : Nat} {h h' : Handler}
    (hLast : LastOfLatest handlers pc h) (hLast' : LastOfLatest handlers pc h') : h = h' := by
  have hLe := hLast.latest hLast'.mem hLast'.protects
  have hGe := hLast'.latest hLast.mem hLast.protects
  obtain ⟨before, after, rfl, -, hAfter⟩ := hLast.last
  obtain ⟨before', after', hEq, -, hAfter'⟩ := hLast'.last
  -- The later of two places would start later.
  rcases append_eq_append_iff.mp hEq with ⟨c, -, hRest⟩ | ⟨c, -, hRest⟩
  · cases c with
    | nil => exact (cons.inj hRest).1
    | cons x c =>
      have hMem : h' ∈ after := (cons.inj hRest).2 ▸ mem_append_right c mem_cons_self
      exact absurd hGe (Nat.not_le.mpr (hAfter h' hMem hLast'.protects))
  · cases c with
    | nil => exact (cons.inj hRest).1.symm
    | cons x c =>
      have hMem : h ∈ after' := (cons.inj hRest).2 ▸ mem_append_right c mem_cons_self
      exact absurd hLe (Nat.not_le.mpr (hAfter' h hMem hLast.protects))

/-- What the scan over the table keeps as its candidate. -/
theorem findHandler_spec (handlers : List Handler) (pc : Nat) :
    match findHandler handlers pc with
    | none => ∀ h ∈ handlers, ¬ h.Protects pc
    | some h => LastOfLatest handlers pc h := by
  induction handlers using reverseRecOn with
  | nil => exact nofun
  | append_singleton handlers h ih =>
    unfold findHandler at ih ⊢
    rw [foldl_append, foldl_cons, foldl_nil]
    revert ih
    generalize foldl _ _ handlers = found
    intro ih
    by_cases hPc : h.startPc ≤ pc ∧ pc < h.endPc
    · rw [if_pos hPc]
      have hEnd (hOld : ∀ g ∈ handlers, g.Protects pc → g.startPc ≤ h.startPc) :
          LastOfLatest (handlers ++ [h]) pc h := ⟨hPc, handlers, [], rfl, hOld, nofun⟩
      cases found with
      | none => exact hEnd fun g hg hg' => absurd hg' (ih g hg)
      | some g =>
        dsimp only
        by_cases hLe : g.startPc ≤ h.startPc
        · rw [if_pos hLe]
          exact hEnd fun g' hg' hPc' => Nat.le_trans (ih.latest hg' hPc') hLe
        · rw [if_neg hLe]
          obtain ⟨before, after, rfl, hBefore, hAfter⟩ := ih.last
          refine ⟨ih.protects, before, after ++ [h], by simp, hBefore, ?_⟩
          intro g' hg' hPc'
          rcases mem_append.mp hg' with hg' | hg'
          · exact hAfter g' hg' hPc'
          · rw [mem_singleton.mp hg']
            exact Nat.not_le.mp hLe
    · rw [if_neg hPc]
      cases found with
      | none =>
        intro g hg
        rcases mem_append.mp hg with hg | hg
        · exact ih g hg
        · rw [mem_singleton.mp hg]
          exact hPc
      | some g =>
        obtain ⟨before, after, rfl, hBefore, hAfter⟩ := ih.last
        refine ⟨ih.protects, before, after ++ [h], by simp, hBefore, ?_⟩
        intro g' hg' hPc'
        rcases mem_append.mp hg' with hg' | hg'
        · exact hAfter g' hg' hPc'
        · rw [mem_singleton.mp hg'] at hPc'
          exact absurd hPc' hPc

/-! ## Frames -/

/-- A frame and the exception last delivered to it. -/
structure CatchFrame (V : Type) extends Frame V where
  pendingException : Option V := none

/-- `raise_in_frame`: the frame with the handler in control, or nothing when the exception
goes on to the caller. -/
def CatchFrame.raise (fr : CatchFrame V) (excVal : V) : Option (CatchFrame V) :=
  (findHandler fr.fn.handlers fr.pc).map fun found =>
    { fr with
      regs := fr.regs.set found.catchReg excVal
      pendingException := some excVal
      pc := found.handlerPc }

/-- What `Rethrow` raises. -/
def CatchFrame.rethrown (noHandler : V) (fr : CatchFrame V) : V :=
  fr.pendingException.getD noHandler

/-- What happens to a frame: instructions that end as they should, and exceptions raised at
its program counter, by its own instruction or out of a call. -/
inductive FrameEvent (V : Type) where
  | work (pc : Nat) (regs : List V)
  | raise (excVal : V)

def FrameEvent.step (fr : CatchFrame V) : FrameEvent V → Option (CatchFrame V)
  | .work pc regs => some { fr with pc, regs }
  | .raise excVal => fr.raise excVal

/-- The life of a frame up to a point where it still stands. -/
def runFrame (fr : CatchFrame V) (events : List (FrameEvent V)) : Option (CatchFrame V) :=
  events.foldlM FrameEvent.step fr

/-- The value most recently raised. -/
def lastRaised (events : List (FrameEvent V)) : Option V :=
  (events.filterMap fun e => match e with
    | .work .. => none
    | .raise v => some v).getLast?

/-- The exception goes to the handler of the smallest range around the program counter, with
nothing else changed, and to the caller if there is none. -/
def Dispatches (fr : CatchFrame V) (excVal : V) : Prop :=
  match fr.raise excVal with
  | none => ∀ h ∈ fr.fn.handlers, ¬ h.Protects fr.pc
  | some fr' => ∃ h, findHandler fr.fn.handlers fr.pc = some h ∧
      Smallest fr.fn.handlers fr.pc h ∧ fr'.pc = h.handlerPc ∧ fr'.fn = fr.fn ∧
      (h.catchReg < fr.regs.length → fr'.regs[h.catchReg]? = some excVal) ∧
      ∀ r, r ≠ h.catchReg → fr'.regs[r]? = fr.regs[r]?

theorem runFrame_spec {fr fr' : CatchFrame V} {events : List (FrameEvent V)}
    (h : runFrame fr events = some fr') : fr'.fn = fr.fn ∧
      fr'.pendingException = (lastRaised events).or fr.pendingException := by
  induction events using reverseRecOn generalizing fr' with
  | nil =>
    cases h
    exact ⟨rfl, rfl⟩
  | append_singleton events e ih =>
    rw [runFrame, foldlM_append] at h
    obtain ⟨fr₁, hRun, h⟩ := Option.bind_eq_some_iff.mp h
    obtain ⟨hFn, hPending⟩ := ih hRun
    cases e with
    | work pc regs =>
      cases h
      exact ⟨hFn, by simpa [lastRaised] using hPending⟩
    | raise excVal =>
      obtain ⟨fr₂, hRaise, h⟩ := Option.bind_eq_some_iff.mp h
      cases h
      obtain ⟨found, -, rfl⟩ := Option.map_eq_some_iff.mp hRaise
      exact ⟨hFn, by simp [lastRaised]⟩

/-- In every life of a frame an exception goes to the innermost handler exactly when, of the
handlers around the place that start latest, the last one listed ends first; `Rethrow`
always raises what was delivered last. -/
theorem dispatches_iff {fr₀ fr : CatchFrame V} {events : List (FrameEvent V)}
    (hEnter : fr₀.pendingException = none) (hRun : runFrame fr₀ events = some fr)
    (hNested : Nested fr₀.fn.handlers) (noHandler excVal : V) :
    (Dispatches fr excVal ∧ fr.rethrown noHandler = (lastRaised events).getD noHandler) ↔
      LastEndsFirst fr₀.fn.handlers fr.pc := by
  obtain ⟨hFn, hPending⟩ := runFrame_spec hRun
  have hRethrown : fr.rethrown noHandler = (lastRaised events).getD noHandler := by
    rw [CatchFrame.rethrown, hPending, hEnter, Option.or_none]
  rw [and_iff_left hRethrown, ← hFn]
  rw [← hFn] at hNested
  have hSpec := findHandler_spec fr.fn.handlers fr.pc
  unfold Dispatches CatchFrame.raise
  rcases hFound : findHandler fr.fn.handlers fr.pc with _ | h
  · rw [hFound] at hSpec
    exact iff_of_true hSpec fun h hLast => absurd hLast.protects (hSpec h hLast.mem)
  rw [hFound] at hSpec
  replace hSpec : LastOfLatest fr.fn.handlers fr.pc h := hSpec
  constructor
  · rintro ⟨h', hh', hSmall, -⟩ h'' hLast g hg hPc hStart
    cases hh'
    cases hSpec.unique hLast
    have hSize := hSmall.2.2 g hg hPc
    unfold Handler.Protects at hPc
    omega
  · intro hFirst
    refine ⟨h, rfl, ⟨hSpec.mem, hSpec.protects, fun g hg hPc => ?_⟩, rfl, rfl, ?_, ?_⟩
    · have hLatest := hSpec.latest hg hPc
      have hTie := hFirst h hSpec g hg hPc
      have hApart := hNested g hg h hSpec.mem
      have hOwn := hSpec.protects
      unfold Handler.Protects Handler.Inside at *
      omega
    · exact fun hReg => getElem?_set_self hReg
    · exact fun r hr => getElem?_set_ne (Ne.symm hr)

/-- `.catch` of the inner range first, then of an outer one with the same start. -/
def innerFirst : CatchFrame Nat where
  fn := { registerCount := 2, code := replicate 12 0
          handlers := [⟨0, 5, 10, 0⟩, ⟨0, 8, 11, 1⟩] }
  pc := 3
  regs := [0, 0]

theorem nested_innerFirst : Nested innerFirst.fn.handlers := by
  simp [Nested, innerFirst, Handler.Inside]

/-- Control goes to the handler of the outer range. -/
theorem innerFirst_goesOut : Nested innerFirst.fn.handlers ∧
    (innerFirst.raise 7).map (fun fr => (fr.pc, fr.regs)) = some (11, [0, 7]) ∧
    ¬ Dispatches innerFirst 7 := by
  refine ⟨nested_innerFirst, rfl, ?_⟩
  rintro ⟨h, hFound, hSmall, -⟩
  cases hFound
  exact absurd (hSmall.2.2 ⟨0, 5, 10, 0⟩ mem_cons_self ⟨by decide, by decide⟩) (by decide)

theorem dispatches_iff_innerFirst :
    let fr : CatchFrame Nat := { innerFirst with pc := 6, regs := [3, 4] }
    (Dispatches fr 7 ∧ fr.rethrown 0 = 0) ↔ LastEndsFirst innerFirst.fn.handlers 6 :=
  @dispatches_iff Nat innerFirst _ [.work 6 [3, 4]] rfl rfl nested_innerFirst 0 7

end B2Compiler.Ts
