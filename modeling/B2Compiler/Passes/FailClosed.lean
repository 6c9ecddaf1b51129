import B2Compiler.Passes.Pipeline

/-!
# What a failed verification leaves behind

The drivers promise to leave the graph as it was after the last pass whose verification
succeeded.  They keep no copy of it: the graph handed back is the one the verifier
refused.  So the promise is kept exactly when every pass that was verified left its
graph alone or made one that is accepted; on a verified graph that is to say that no
verification fails.
-/

namespace B2Compiler.Passes

open Ir List Option Bool

/-- The graph after the last of the verified passes, the input if there is none. -/
def lastGood (g : Store) (history : List PassEvent) : Store :=
  match history.getLast? with
  | some e => e.after
  | none => g

/-- After a verification that fails nothing else runs, and the graph handed back is the
one the last good pass left. -/
def FailClosed (g : Store) (history : List PassEvent) (handedBack : Store) : Prop :=
  ∀ good bad later, history = good ++ bad :: later → (∀ e ∈ good, e.verified = true) →
    bad.verified = false → later = [] ∧ handedBack = lastGood g good

@[simp] theorem lastGood_nil (g : Store) : lastGood g [] = g := rfl

@[simp] theorem lastGood_snoc (g : Store) (history : List PassEvent) (e : PassEvent) :
    lastGood g (history ++ [e]) = e.after := by
  simp [lastGood]

/-! ## The trail of a run -/

/-- The verdicts are the verifier's. -/
def Verdicts (history : List PassEvent) : Prop :=
  ∀ e ∈ history, (e.verified = true ↔ e.after.Accepted)

structure Going (g : Store) (history : List PassEvent) (now : Store) : Prop where
  verdicts : Verdicts history
  good : ∀ e ∈ history, e.verified = true
  current : now = lastGood g history

/-- A failed verification is the last one; its pass was given the last good graph, and
what it left is handed back. -/
structure Trail (g : Store) (history : List PassEvent) (handedBack : Store) : Prop where
  verdicts : Verdicts history
  stops : ∀ good bad later, history = good ++ bad :: later → bad.verified = false →
    later = [] ∧ bad.before = lastGood g good ∧ bad.after = handedBack

theorem trail_of_good {g now : Store} {history : List PassEvent} (hv : Verdicts history)
    (hgood : ∀ e ∈ history, e.verified = true) : Trail g history now := by
  refine ⟨hv, ?_⟩
  intro good bad later hEq hbad
  have hmem : bad ∈ history := by
    rw [hEq]
    exact mem_append_right _ mem_cons_self
  rw [hgood bad hmem] at hbad
  cases hbad

section Snoc

variable {g now after : Store} {history : List PassEvent} {v : Bool}

theorem Verdicts.snoc (hv : Verdicts history) (hver : v = true ↔ after.Accepted) :
    Verdicts (history ++ [⟨now, after, v⟩]) := by
  intro e he
  rcases mem_append.mp he with he | he
  · exact hv e he
  · rw [mem_singleton] at he
    subst he
    exact hver

theorem Going.accept (h : Going g history now) (hacc : after.Accepted) :
    Going g (history ++ [⟨now, after, true⟩]) after := by
  refine ⟨h.verdicts.snoc (iff_of_true rfl hacc), ?_, ?_⟩
  · intro e he
    rcases mem_append.mp he with he | he
    · exact h.good e he
    · rw [mem_singleton] at he
      rw [he]
  · rw [lastGood_snoc]

theorem Going.refuse (h : Going g history now) (hacc : ¬ after.Accepted) :
    Trail g (history ++ [⟨now, after, false⟩]) after := by
  refine ⟨h.verdicts.snoc (iff_of_false false_ne_true hacc), ?_⟩
  intro good bad later hEq hbad
  -- the new event is the only one that failed
  rcases eq_nil_or_concat later with rfl | ⟨rest, last, rfl⟩
  · obtain ⟨rfl, hLast⟩ := append_inj' hEq rfl
    injection hLast with hLast
    rw [← hLast]
    exact ⟨rfl, h.current, rfl⟩
  · have hEq' : history ++ [⟨now, after, false⟩] = (good ++ bad :: rest) ++ [last] := by
      rw [hEq]
      simp
    obtain ⟨hHist, -⟩ := append_inj' hEq' rfl
    have hmem : bad ∈ history := by
      rw [hHist]
      exact mem_append_right _ mem_cons_self
    rw [h.good bad hmem] at hbad
    cases hbad

end Snoc

theorem Trail.good_of_split {g handedBack : Store} {history good later : List PassEvent}
    {bad : PassEvent} (h : Trail g history handedBack) (hEq : history = good ++ bad :: later) :
    ∀ e ∈ good, e.verified = true := by
  intro e he
  obtain ⟨a, b, hSplit⟩ := append_of_mem he
  cases hver : e.verified with
  | true => rfl
  | false =>
    have hAt : history = a ++ e :: (b ++ bad :: later) := by
      rw [hEq, hSplit]
      simp
    obtain ⟨hNil, -⟩ := h.stops _ _ _ hAt hver
    cases b <;> cases hNil

/-- The promise is kept exactly when no pass replaced its graph by one that is refused. -/
theorem Trail.failClosed_iff {g handedBack : Store} {history : List PassEvent}
    (h : Trail g history handedBack) :
    FailClosed g history handedBack ↔ ∀ e ∈ history, e.after = e.before ∨ e.after.Accepted := by
  constructor
  · intro hClosed e he
    obtain ⟨good, later, hEq⟩ := append_of_mem he
    cases hver : e.verified with
    | true => exact Or.inr ((h.verdicts e he).mp hver)
    | false =>
      left
      obtain ⟨-, hBefore, hAfter⟩ := h.stops _ _ _ hEq hver
      obtain ⟨-, hBack⟩ := hClosed good e later hEq (h.good_of_split hEq) hver
      rw [hAfter, hBack, hBefore]
  · intro hAll good bad later hEq hgood hbad
    obtain ⟨hNil, hBefore, hAfter⟩ := h.stops _ _ _ hEq hbad
    have hmem : bad ∈ history := by
      rw [hEq]
      exact mem_append_right _ mem_cons_self
    refine ⟨hNil, ?_⟩
    rcases hAll bad hmem with hSame | hAcc
    · rw [← hAfter, hSame, hBefore]
    · rw [(h.verdicts bad hmem).mpr hAcc] at hbad
      cases hbad

theorem accepted_lastGood {g : Store} {good : List PassEvent} (hg : g.Accepted)
    (hv : Verdicts good) (hgood : ∀ e ∈ good, e.verified = true) : (lastGood g good).Accepted := by
  rcases eq_nil_or_concat good with rfl | ⟨rest, last, rfl⟩
  · exact hg
  · rw [concat_eq_append] at hv hgood ⊢
    rw [lastGood_snoc]
    have hmem : last ∈ rest ++ [last] := mem_append_right _ (mem_singleton.mpr rfl)
    exact (hv last hmem).mp (hgood last hmem)

/-- On a verified graph the promise is kept exactly when nothing fails. -/
theorem Trail.failClosed_iff_good {g handedBack : Store} {history : List PassEvent}
    (h : Trail g history handedBack) (hg : g.Accepted) :
    FailClosed g history handedBack ↔ ∀ e ∈ history, e.verified = true := by
  rw [h.failClosed_iff]
  constructor
  · intro hAll e he
    cases hver : e.verified with
    | true => rfl
    | false =>
      obtain ⟨good, later, hEq⟩ := append_of_mem he
      obtain ⟨-, hBefore, -⟩ := h.stops _ _ _ hEq hver
      have hv : Verdicts good := fun x hx => h.verdicts x (hEq ▸ mem_append_left _ hx)
      have hBeforeAcc : e.before.Accepted := by
        rw [hBefore]
        exact accepted_lastGood hg hv (h.good_of_split hEq)
      have hAfterAcc : e.after.Accepted := by
        rcases hAll e he with hSame | hAcc
        · rw [hSame]
          exact hBeforeAcc
        · exact hAcc
      rw [(h.verdicts e he).mpr hAfterAcc] at hver
      cases hver
  · intro hAll e he
    exact Or.inr ((h.verdicts e he).mp (hAll e he))

/-! ## The drivers -/

theorem ok_iff_accepted {g : Store} {v : VerifyResult} (h : g.verify = some v) :
    v.ok = true ↔ g.Accepted := by
  unfold Store.Accepted
  rw [h, some_inj]
  unfold Store.verify Image.verify at h
  cases hDiags : g.image.verifyDiags fun n => !(g.usesOf n).isEmpty with
  | none =>
    rw [hDiags] at h
    cases h
  | some diags =>
    rw [hDiags] at h
    cases h
    cases diags with
    | nil => exact iff_of_true rfl rfl
    | cons d ds => exact iff_of_false false_ne_true (by simp)

/-- A driver that has not failed is going; without verification there is no history.  One
that has failed left its trail. -/
structure DriverInv (verifying : Bool) (g : Store) (ok : Bool) (history : List PassEvent)
    (now : Store) : Prop where
  going : ok = true → if verifying then Going g history now else history = []
  failed : ok = false → Trail g history now

theorem driverInv_start (verifying : Bool) (g : Store) : DriverInv verifying g true [] g := by
  refine ⟨fun _ => ?_, nofun⟩
  cases verifying with
  | true => exact ⟨nofun, nofun, rfl⟩
  | false => rfl

theorem DriverInv.trail {verifying ok : Bool} {g now : Store} {history : List PassEvent}
    (h : DriverInv verifying g ok history now) : Trail g history now := by
  cases ok with
  | false => exact h.failed rfl
  | true =>
    cases verifying with
    | true =>
      have hGoing : Going g history now := h.going rfl
      exact trail_of_good hGoing.verdicts hGoing.good
    | false =>
      have hNil : history = [] := h.going rfl
      rw [hNil]
      exact trail_of_good nofun nofun

/-- The verdict on a new graph carries the invariant on. -/
theorem Going.driverInv {g now after : Store} {history : List PassEvent} {v : VerifyResult}
    (h : Going g history now) (hv : after.verify = some v) :
    DriverInv true g v.ok (history ++ [⟨now, after, v.ok⟩]) after := by
  cases hok : v.ok with
  | true => exact ⟨fun _ => h.accept ((ok_iff_accepted hv).mp hok), nofun⟩
  | false =>
    refine ⟨nofun, fun _ => h.refuse ?_⟩
    rw [← ok_iff_accepted hv, hok]
    exact false_ne_true

section Pipeline

variable {E : PassEngines} {fuel : Nat} {cfg : PassConfig} {g : Store}

/-- The invariant of the pipeline's state. -/
def PipelineInv (cfg : PassConfig) (g : Store) (p : Pipeline) : Prop :=
  DriverInv cfg.verifyAfterEachPass g p.ok p.history p.graph

/-- Diagnostics change neither graph nor verdict nor history. -/
theorem foldl_addDiag (pass : PassKey) (ds : List VerifyDiag) (p : Pipeline) :
    let q := ds.foldl (fun q (d : VerifyDiag) =>
      q.addDiag pass s!"IR verify failed at n{d.node}: {d.message}") p
    q.run = p.run ∧ q.history = p.history := by
  induction ds generalizing p with
  | nil => exact ⟨rfl, rfl⟩
  | cons d ds ih => exact ih _

variable {p q : Pipeline}

theorem verifyInto_inv {pass : PassKey} {before : Store} (hp : p.ok = true)
    (h : Going g p.history before) (hq : verifyInto pass before p = some q) :
    DriverInv true g q.ok q.history q.graph := by
  unfold verifyInto at hq
  cases hv : p.run.g.verify with
  | none =>
    rw [hv] at hq
    cases hq
  | some v =>
    rw [hv] at hq
    have hInv := h.driverInv hv
    cases hok : v.ok with
    | true =>
      simp only [Option.bind_eq_bind, Option.bind_some, hok, if_true, Option.pure_def,
        Option.some.injEq] at hq
      subst hq
      rw [hok] at hInv
      dsimp only
      rw [hp]
      exact hInv
    | false =>
      simp only [Option.bind_eq_bind, Option.bind_some, hok, Bool.false_eq_true, if_false,
        Option.pure_def, Option.some.injEq] at hq
      subst hq
      rw [hok] at hInv
      obtain ⟨hRun, hHist⟩ := foldl_addDiag pass v.diags
        { p with history := p.history ++ [⟨before, p.run.g, false⟩] }
      unfold Pipeline.graph
      dsimp only
      rw [hRun, hHist]
      exact hInv

theorem report_keeps (st : Stage) (p : Pipeline) :
    (st.report p).ok = p.ok ∧ (st.report p).history = p.history := by
  unfold Stage.report
  dsimp only
  split <;> split <;> exact ⟨rfl, rfl⟩

variable (hp : p.ok = true) (h : PipelineInv cfg g p)
include hp h

theorem runStage_inv {st : Stage} (hq : runStage cfg st p = some q) : PipelineInv cfg g q := by
  unfold runStage at hq
  cases hbody : st.body.run { p.run with b := { limit := st.budget } } with
  | none =>
    rw [hbody] at hq
    cases hq
  | some out =>
    rw [hbody] at hq
    simp only [bind_eq_bind, bind_some] at hq
    obtain ⟨hok, hhist⟩ := report_keeps st { p with run := out.2 }
    generalize st.report { p with run := out.2 } = p₁ at hq hok hhist
    have hGoing := h.going hp
    unfold PipelineInv
    cases hverify : cfg.verifyAfterEachPass with
    | true =>
      rw [hverify] at hGoing hq
      apply verifyInto_inv (hok.trans hp) _ hq
      rw [hhist]
      exact hGoing
    | false =>
      rw [hverify] at hGoing hq
      simp only [Bool.false_eq_true, if_false, Option.pure_def, Option.some.injEq] at hq hGoing
      subst hq
      rw [hok, hhist]
      exact ⟨fun _ => hGoing, fun hbad => by rw [hp] at hbad; cases hbad⟩

theorem runStages_inv {stages : List Stage}
    (hq : runStages cfg stages p = some q) : PipelineInv cfg g q := by
  induction stages generalizing p with
  | nil =>
    cases hq
    exact h
  | cons st rest ih =>
    unfold runStages at hq
    cases hst : runStage cfg st p with
    | none =>
      rw [hst] at hq
      cases hq
    | some p₁ =>
      rw [hst] at hq
      have h₁ := runStage_inv hp h hst
      simp only [bind_eq_bind, bind_some] at hq
      cases hok : p₁.ok with
      | true =>
        rw [if_pos hok] at hq
        exact ih hok h₁ hq
      | false =>
        rw [if_neg (by rw [hok]; exact false_ne_true)] at hq
        cases hq
        exact h₁

/-- Rounds carry it on: what they do besides the passes touches the telemetry only. -/
theorem cleanupRounds_inv {stages : List Stage} {rounds left : Nat}
    (hq : cleanupRounds cfg stages rounds left p = some q) :
    PipelineInv cfg g q := by
  induction left generalizing p with
  | zero =>
    cases hq
    exact h
  | succ left ih =>
    unfold cleanupRounds at hq
    simp only [bind_eq_bind, bind_eq_some_iff] at hq
    obtain ⟨p₁, hst, hq⟩ := hq
    have h₁ : PipelineInv cfg g p₁ := runStages_inv (p := p.tell _) hp h hst
    split at hq
    · cases hq
      exact h₁
    rename_i hok
    split at hq
    · cases hq
      exact h₁
    · split at hq
      · cases hq
        exact h₁
      · exact ih (by simpa using hok) h₁ hq

end Pipeline

section Inliner

variable {σ : Type} {considerVirtual : Bool} {g : Store}
variable {site : NodeId → Nat → List Nat → PassRun → σ → Option (SiteOutcome σ)}

/-- The invariant of the inliner's state. -/
def InliningInv (g : Store) (s : Inlining σ) : Prop :=
  DriverInv true g s.ok s.history s.run.g

theorem tryInlineSite_inv {call : NodeId} {depth : Nat} {stack : List Nat} {s s' : Inlining σ}
    {inlined : Option Nat} (hs : s.ok = true) (h : InliningInv g s)
    (hq : tryInlineSite site call depth stack s = some (inlined, s')) : InliningInv g s' := by
  have hGoing : Going g s.history s.run.g := h.going hs
  unfold tryInlineSite at hq
  simp only [bind_eq_bind, bind_eq_some_iff] at hq
  obtain ⟨outcome, -, hq⟩ := hq
  cases outcome with
  | refused memo =>
    cases hq
    exact h
  | broken run memo message =>
    cases hq
    exact ⟨nofun, fun _ => trail_of_good hGoing.verdicts hGoing.good⟩
  | built run memo callee =>
    simp only [bind_eq_some_iff] at hq
    obtain ⟨v, hv, hq⟩ := hq
    have hInv := hGoing.driverInv hv
    cases hok : v.ok with
    | true =>
      simp only [hok, if_true, Option.pure_def, Option.some.injEq, Prod.mk.injEq] at hq
      obtain ⟨-, rfl⟩ := hq
      rw [hok] at hInv
      unfold InliningInv
      dsimp only
      rw [hs]
      exact hInv
    | false =>
      simp only [hok, Bool.false_eq_true, if_false, Option.pure_def, Option.some.injEq,
        Prod.mk.injEq] at hq
      obtain ⟨-, rfl⟩ := hq
      rw [hok] at hInv
      exact hInv

/-- The walk carries it on, by induction on the number of visits left. -/
theorem processRange_inv {fuel : Nat} {id limit : NodeId} {depth : Nat} {stack : List Nat}
    {s s' : Inlining σ} (h : InliningInv g s)
    (hq : processRange considerVirtual site fuel id limit depth stack s = some s') :
    InliningInv g s' := by
  induction fuel generalizing id limit depth stack s s' with
  | zero => cases hq
  | succ fuel ih =>
    unfold processRange at hq
    split at hq
    · rename_i hid
      dsimp only at hq
      split at hq
      · exact ih h hq
      simp only [bind_eq_bind, bind_eq_some_iff] at hq
      obtain ⟨⟨inlined, s₁⟩, hsite, s₂, hdeeper, hq⟩ := hq
      have h₁ := tryInlineSite_inv hid.2 h hsite
      cases inlined with
      | some callee => exact ih (ih h₁ hdeeper) hq
      | none =>
        cases hdeeper
        exact ih h₁ hq
    · cases hq
      exact h

end Inliner

/-! ## Every driver -/

/-- What the drivers are run with. -/
structure Setup (σ : Type) where
  engines : PassEngines
  cfg : PassConfig := {}
  inlining : Bool := true
  considerVirtual : Bool := false
  site : NodeId → Nat → List Nat → PassRun → σ → Option (SiteOutcome σ)
  memo : σ

inductive Driver where
  | single (key : PassKey) | escapeAnalysis | cleanup | inlining
  deriving DecidableEq, Repr

/-- The verifications of a driver's run and the graph it hands back, if it comes back. -/
def Driver.drive {σ : Type} (S : Setup σ) (fuel : Nat) (d : Driver) (g : Store) :
    Option (List PassEvent × Store) :=
  match d with
  | .single key =>
    (runSinglePass S.engines fuel S.cfg key { run := { g } }).map fun p => (p.history, p.graph)
  | .escapeAnalysis =>
    (runPartialEscapeAnalysis S.engines S.cfg { run := { g } }).map fun p => (p.history, p.graph)
  | .cleanup =>
    (runEarlyCleanup S.engines fuel S.cfg { run := { g } }).map fun p => (p.history, p.graph)
  | .inlining =>
    (runInlining S.inlining S.considerVirtual S.site fuel { run := { g }, memo := S.memo }).map
      fun s => (s.history, s.run.g)

section Every

variable {σ : Type} {S : Setup σ} {fuel : Nat} {g : Store}

variable {p : Pipeline}

theorem runSinglePass_trail {key : PassKey}
    (hp : runSinglePass S.engines fuel S.cfg key { run := { g } } = some p) :
    Trail g p.history p.graph := by
  have hStart : PipelineInv S.cfg g { run := { g } } := driverInv_start _ g
  unfold runSinglePass at hp
  split at hp
  · cases hp
    exact trail_of_good nofun nofun
  · split at hp
    · exact (runStage_inv rfl hStart hp).trail
    · cases hp
      exact hStart.trail

theorem runPartialEscapeAnalysis_trail
    (hp : runPartialEscapeAnalysis S.engines S.cfg { run := { g } } = some p) :
    Trail g p.history p.graph := by
  have hStart : PipelineInv S.cfg g { run := { g } } := driverInv_start _ g
  unfold runPartialEscapeAnalysis at hp
  dsimp only at hp
  split at hp
  · cases hp
    exact hStart.trail
  · exact (runStage_inv rfl hStart hp).trail

theorem runEarlyCleanup_trail
    (hp : runEarlyCleanup S.engines fuel S.cfg { run := { g } } = some p) :
    Trail g p.history p.graph := by
  have hStart : PipelineInv S.cfg g { run := { g } } := driverInv_start _ g
  exact (cleanupRounds_inv rfl hStart hp).trail

theorem runInlining_trail {s : Inlining σ}
    (hs : runInlining S.inlining S.considerVirtual S.site fuel { run := { g }, memo := S.memo } =
      some s) :
    Trail g s.history s.run.g := by
  have hStart : InliningInv g { run := { g }, memo := S.memo } := driverInv_start _ g
  unfold runInlining at hs
  split at hs
  · exact (processRange_inv hStart hs).trail
  · cases hs
    exact hStart.trail

theorem drive_trail {d : Driver} {history : List PassEvent} {handedBack : Store}
    (h : d.drive S fuel g = some (history, handedBack)) : Trail g history handedBack := by
  cases d with
  | single key =>
    obtain ⟨p, hp, hEq⟩ := map_eq_some_iff.mp h
    cases hEq
    exact runSinglePass_trail hp
  | escapeAnalysis =>
    obtain ⟨p, hp, hEq⟩ := map_eq_some_iff.mp h
    cases hEq
    exact runPartialEscapeAnalysis_trail hp
  | cleanup =>
    obtain ⟨p, hp, hEq⟩ := map_eq_some_iff.mp h
    cases hEq
    exact runEarlyCleanup_trail hp
  | inlining =>
    obtain ⟨s, hs, hEq⟩ := map_eq_some_iff.mp h
    cases hEq
    exact runInlining_trail hs

end Every

/-- Whatever the engines and the sites do: the graph handed back is the last good one
exactly when every pass that was verified left its graph alone or made one that is
accepted.  On a verified graph that fails with the first verification that fails. -/
theorem drive_failClosed_iff {σ : Type} (S : Setup σ) (fuel : Nat) (d : Driver) (g : Store)
    (history : List PassEvent) (handedBack : Store)
    (hRun : d.drive S fuel g = some (history, handedBack)) :
    (FailClosed g history handedBack ↔ ∀ e ∈ history, e.after = e.before ∨ e.after.Accepted) ∧
      (g.Accepted → (FailClosed g history handedBack ↔ ∀ e ∈ history, e.verified = true)) :=
  ⟨(drive_trail hRun).failClosed_iff, (drive_trail hRun).failClosed_iff_good⟩

/-- Engines with nothing to do and an inliner that refuses every site, which is what the
graphs below make of the real ones: they hold no operation, no allocation and no call. -/
def idleSetup : Setup Unit where
  engines := { runSimplify := fun _ => pure (), runSCCP := pure (), runPEA := fun _ => pure () }
  site := fun _ _ _ _ _ => some (.refused ())
  memo := ()

/-- A method that returns, with an unused constant. -/
def emptyMethod : Store :=
  Store.fresh.run [.constantI 7, .make .returnNode [Graph.startNode] 0 0]

theorem drive_failClosed_iff_emptyMethod : emptyMethod.Accepted ∧ ∃ history handedBack,
      Driver.cleanup.drive idleSetup 40 emptyMethod = some (history, handedBack) ∧
        handedBack ≠ emptyMethod ∧ FailClosed emptyMethod history handedBack := by
  have hAccepted : emptyMethod.Accepted := by decide +kernel
  have hRun : ((Driver.cleanup.drive idleSetup 40 emptyMethod).map fun o =>
      (o.1.all PassEvent.verified, decide (o.2 = emptyMethod))) = some (true, false) := by
    decide +kernel
  obtain ⟨⟨history, handedBack⟩, hDrive, hEq⟩ := map_eq_some_iff.mp hRun
  injection hEq with hGood hChanged
  refine ⟨hAccepted, history, handedBack, hDrive, of_decide_eq_false hChanged, ?_⟩
  apply ((drive_failClosed_iff idleSetup 40 .cleanup emptyMethod history handedBack hDrive).2
    hAccepted).mpr
  exact all_eq_true.mp hGood

/-- A branch that is never taken and materializes an object. -/
def deadMaterialize : Store :=
  Store.fresh.run [.constantI 0, .make .ifNode [Graph.startNode, 1] 0 0, .make .ifTrue [2] 0 0,
    .make .ifFalse [2] 0 0, .makeVirtualObject 1 [],
    .make .materialize [3, Graph.startNode, 5] 1 0, .make .returnNode [6] 0 0,
    .make .returnNode [4] 0 0]

/-- The sweep wires the dead `Materialize` to a null constant, the verifier refuses that,
and the graph is handed back with the branch half removed. -/
theorem not_drive_failClosed : deadMaterialize.Accepted ∧
      ∀ d ∈ [Driver.single .controlFlowSimplification, Driver.cleanup], ∃ history handedBack,
        d.drive idleSetup 40 deadMaterialize = some (history, handedBack) ∧
          ¬ FailClosed deadMaterialize history handedBack := by
  have hAccepted : deadMaterialize.Accepted := by decide +kernel
  refine ⟨hAccepted, ?_⟩
  intro d hd
  have hRun : ((d.drive idleSetup 40 deadMaterialize).map fun o =>
      o.1.all PassEvent.verified) = some false := by
    rcases mem_pair.mp hd with rfl | rfl <;> decide +kernel
  obtain ⟨⟨history, handedBack⟩, hDrive, hBad⟩ := map_eq_some_iff.mp hRun
  refine ⟨history, handedBack, hDrive, ?_⟩
  rw [(drive_trail hDrive).failClosed_iff_good hAccepted]
  intro hAll
  rw [all_eq_true.mpr hAll] at hBad
  cases hBad

end B2Compiler.Passes
