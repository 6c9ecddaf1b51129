import B2Compiler.Passes.Cleanup

/-!
# The pass pipeline

The registry, the dispatcher and the three drivers: one pass alone, the cleanup pipeline
with its bounded rounds, and the walk of the inliner over the call sites.  All of them
mutate the graph in place and verify it after each pass, the inliner after each site; a
failed verification ends the run.

The engines of simplification, constant propagation and escape analysis and the body of
one inlining are parameters: the drivers only call them.
-/

namespace B2Compiler.Passes

open Ir

/-! ## The registry -/

inductive PassKey where
  | deadCodeElimination | trivialBlockFusion | canonicalization | constantFolding
  | strengthReduction | identityRemoval | redundantCastRemoval | nullCheckFolding
  | branchNormalization | controlFlowSimplification | gvn
  | sparseConditionalConstantPropagation | escapeAnalysis | partialEscapeAnalysis
  | scalarReplacement | materializationPlanning
  deriving DecidableEq, Repr

def PassKey.number : PassKey → Nat
  | .deadCodeElimination => 11
  | .trivialBlockFusion => 12
  | .canonicalization => 13
  | .constantFolding => 14
  | .strengthReduction => 15
  | .identityRemoval => 16
  | .redundantCastRemoval => 17
  | .nullCheckFolding => 18
  | .branchNormalization => 19
  | .controlFlowSimplification => 20
  | .gvn => 35
  | .sparseConditionalConstantPropagation => 38
  | .escapeAnalysis => 65
  | .partialEscapeAnalysis => 66
  | .scalarReplacement => 67
  | .materializationPlanning => 69

def kDefaultPassRewriteBudget : Nat := 200000

/-- A registry row. -/
structure PassInfo where
  key : PassKey
  name : String
  rewriteBudget : Nat := kDefaultPassRewriteBudget

/-- The delivered passes. -/
def passRegistry : List PassInfo :=
  [{ key := .deadCodeElimination, name := "dce" }, { key := .trivialBlockFusion, name := "fusion" },
    { key := .canonicalization, name := "canon" },
    { key := .constantFolding, name := "constfold" },
    { key := .strengthReduction, name := "strength" },
    { key := .identityRemoval, name := "identity" },
    { key := .nullCheckFolding, name := "nullfold" },
    { key := .branchNormalization, name := "branchnorm" },
    { key := .controlFlowSimplification, name := "cfs" },
    { key := .gvn, name := "gvn" },
    { key := .sparseConditionalConstantPropagation, name := "sccp" },
    { key := .escapeAnalysis, name := "escape" },
    { key := .partialEscapeAnalysis, name := "pea" },
    { key := .scalarReplacement, name := "scalar" },
    { key := .materializationPlanning, name := "matplan" }]

/-- The row of a key, if it is delivered. -/
def passInfo (key : PassKey) : Option PassInfo := passRegistry.find? fun i => i.key == key

def kMaxEarlyCleanupRounds : Nat := 3

structure PassConfig where
  enabledBits : BitVec 32 := 0xFFFFFFFF
  verifyAfterEachPass : Bool := true
  maxCleanupRounds : Nat := kMaxEarlyCleanupRounds

def PassConfig.isPassEnabled (cfg : PassConfig) (key : PassKey) : Bool :=
  match passRegistry.findIdx? fun i => i.key == key with
  | some idx => cfg.enabledBits.getLsbD idx
  | none => false

def PassConfig.mask (cfg : PassConfig) (bits : List (PassKey × BitVec 32)) : BitVec 32 :=
  bits.foldl (fun m (key, bit) => if cfg.isPassEnabled key then m ||| bit else m) 0

/-- Classes of the simplification sweep. -/
def simplifyBits : List (PassKey × BitVec 32) :=
  [(.constantFolding, 1), (.identityRemoval, 2), (.strengthReduction, 4),
    (.canonicalization, 8), (.trivialBlockFusion, 16)]

/-- Stages of the escape analysis. -/
def peaBits : List (PassKey × BitVec 32) :=
  [(.escapeAnalysis, 1), (.partialEscapeAnalysis, 2), (.scalarReplacement, 4),
    (.materializationPlanning, 8)]

/-! ## Running one pass -/

structure PassEngines where
  runSimplify : BitVec 32 → PassM Unit
  runSCCP : PassM Unit
  runPEA : BitVec 32 → PassM Unit

section Drivers

variable (E : PassEngines) (fuel : Nat) (cfg : PassConfig)

/-- One pass body by its key. -/
def runOne : PassKey → PassM Unit
  | .deadCodeElimination => runDCE fuel
  | .trivialBlockFusion => do
      E.runSimplify 16
      rebuildRegions fuel none kMaxSweepIterations
  | .canonicalization => E.runSimplify 8
  | .constantFolding => E.runSimplify 1
  | .strengthReduction => E.runSimplify 4
  | .identityRemoval => E.runSimplify 2
  | .redundantCastRemoval => pure ()
  | .nullCheckFolding => runNullCheckFolding fuel
  | .branchNormalization => runBranchNormalization fuel
  | .controlFlowSimplification => unreachableSweep fuel
  | .gvn => runGVN fuel
  | .sparseConditionalConstantPropagation => E.runSCCP
  | .escapeAnalysis => E.runPEA 1
  | .partialEscapeAnalysis => E.runPEA 3
  | .scalarReplacement => E.runPEA 5
  | .materializationPlanning => E.runPEA 11

structure PassDiag where
  pass : PassKey
  message : String
  deriving DecidableEq, Repr

def kDiagCap : Nat := 32

def addDiag (diags : List PassDiag) (pass : PassKey) (message : String) : List PassDiag :=
  if kDiagCap ≤ diags.length then diags else diags ++ [⟨pass, message⟩]

/-- A verification of a run: the graphs before and after the pass, and the verdict.  The
source keeps none of it. -/
structure PassEvent where
  before : Store
  after : Store
  verified : Bool
  deriving DecidableEq, Repr

/-- The state of a driver: what the passes work on, the result, and the verifications so
far. -/
structure Pipeline where
  run : PassRun
  ok : Bool := true
  diags : List PassDiag := []
  history : List PassEvent := []

def Pipeline.graph (p : Pipeline) : Store := p.run.g

/-- An update of the telemetry. -/
def Pipeline.tell (p : Pipeline) (f : PassTelemetry → PassTelemetry) : Pipeline :=
  { p with run := { p.run with t := f p.run.t } }

def Pipeline.addDiag (p : Pipeline) (pass : PassKey) (message : String) : Pipeline :=
  { p with diags := Passes.addDiag p.diags pass message }

/-- Verifies the graph; `before` is the graph the pass was given. -/
def verifyInto (pass : PassKey) (before : Store) (p : Pipeline) : Option Pipeline := do
  let v ← p.run.g.verify
  let p := { p with history := p.history ++ [⟨before, p.run.g, v.ok⟩] }
  if v.ok then return p
  else
    let failed := v.diags.foldl (fun q (d : VerifyDiag) =>
      q.addDiag pass s!"IR verify failed at n{d.node}: {d.message}") p
    return { failed with ok := false }

/-- A pass of a driver: its body with the budget, and the name in the overrun
diagnostic. -/
structure Stage where
  key : PassKey
  name : String
  budget : Nat
  body : PassM Unit
  note : PassTelemetry → Option String := fun _ => none

/-- What a driver reports of a pass that came back. -/
def Stage.report (st : Stage) (p : Pipeline) : Pipeline :=
  let p :=
    if p.run.b.exceeded then
      (p.tell fun t => { t with budgetOverruns := t.budgetOverruns + 1, converged := false }).addDiag
        st.key s!"{st.name}: rewrite budget exhausted ({st.budget}); stopped at a valid point"
    else p
  match st.note p.run.t with
  | some text => p.addDiag st.key text
  | none => p

/-- Runs a pass and verifies what it leaves. -/
def runStage (st : Stage) (p : Pipeline) : Option Pipeline := do
  let (_, s) ← st.body.run { p.run with b := { limit := st.budget } }
  let q := st.report { p with run := s }
  if cfg.verifyAfterEachPass then verifyInto st.key p.run.g q else return q

def passStage (info : PassInfo) : Stage :=
  ⟨info.key, info.name, info.rewriteBudget, runOne E fuel info.key, fun _ => none⟩

/-- One pass in isolation. -/
def runSinglePass (key : PassKey) (p : Pipeline) : Option Pipeline :=
  match passInfo key with
  | none =>
    some ({ p with ok := false }.addDiag key
      s!"pass key {key.number} is not in the delivered registry")
  | some info => if cfg.isPassEnabled key then runStage cfg (passStage E fuel info) p else some p

def runPartialEscapeAnalysis (p : Pipeline) : Option Pipeline :=
  let mask := cfg.mask peaBits
  if mask = 0 then some p
  else
    runStage cfg ⟨.escapeAnalysis, "pea", kDefaultPassRewriteBudget, E.runPEA mask, fun t =>
        if 0 < t.peaRejected ∨ 0 < t.budgetOverruns then
          some s!"pea: {t.peaScalarized} scalarized, {t.peaMaterialized} materialized, {t.peaRejected} rejected"
        else none⟩ p

def simplifyBudget : Nat :=
  (passRegistry.filter fun i => (simplifyBits.map Prod.fst).contains i.key).foldl
    (fun b i => max b i.rewriteBudget) 0

/-- The passes of one round.  Only the simplification sweep and the escape analysis look
at the switches. -/
def cleanupStages : List Stage :=
  let step (key : PassKey) : List Stage := (passInfo key).toList.map (passStage E fuel)
  let simplifyMask := cfg.mask simplifyBits
  let peaMask := cfg.mask peaBits
  (if simplifyMask ≠ 0 then
    [⟨.constantFolding, "simplify sweep", simplifyBudget, E.runSimplify simplifyMask,
      fun _ => none⟩] else []) ++
  step .sparseConditionalConstantPropagation ++ step .nullCheckFolding ++
  step .branchNormalization ++ step .controlFlowSimplification ++ step .deadCodeElimination ++
  step .gvn ++
  (if peaMask ≠ 0 then
    [⟨.escapeAnalysis, "pea", kDefaultPassRewriteBudget, E.runPEA peaMask, fun _ => none⟩]
    else []) ++
  step .deadCodeElimination

/-- Runs passes until a verification fails. -/
def runStages : List Stage → Pipeline → Option Pipeline
  | [], p => some p
  | st :: rest, p => do
      let p ← runStage cfg st p
      if p.ok then runStages rest p else return p

/-- Rounds until nothing changes or `left` is used up. -/
def cleanupRounds (stages : List Stage) (rounds : Nat) : Nat → Pipeline → Option Pipeline
  | 0, p => some p
  | left + 1, p => do
      let work (p : Pipeline) := p.run.t.rewrites + p.run.t.removals
      let q ← runStages cfg stages (p.tell fun t => { t with rounds := rounds - left })
      if q.ok = false then return q
      else if work q = work p then return q.tell fun t => { t with converged := true }
      else if left = 0 then
        return (q.tell fun t => { t with converged := false }).addDiag .deadCodeElimination
          s!"cleanup fixpoint stopped at the round budget ({rounds} rounds) while still changing"
      else cleanupRounds stages rounds left q

def runEarlyCleanup (p : Pipeline) : Option Pipeline :=
  let rounds := min cfg.maxCleanupRounds kMaxEarlyCleanupRounds
  cleanupRounds cfg (cleanupStages E fuel cfg) rounds rounds p

end Drivers

/-! ## The inliner -/

structure InlineDiag where
  node : NodeId
  message : String
  deriving DecidableEq, Repr

/-- The state of the inliner; `memo` is what the sites keep besides the graph: decisions,
telemetry, trial builds. -/
structure Inlining (σ : Type) where
  run : PassRun
  memo : σ
  ok : Bool := true
  diags : List InlineDiag := []
  history : List PassEvent := []

/-- What becomes of a site before the graph is verified: it is refused and the graph is
as it was, the rewrite broke off, or a callee was built in. -/
inductive SiteOutcome (σ : Type) where
  | refused (memo : σ)
  | broken (run : PassRun) (memo : σ) (message : String)
  | built (run : PassRun) (memo : σ) (callee : Nat)

section Inliner

variable {σ : Type} (enabled considerVirtual : Bool)
variable (site : NodeId → Nat → List Nat → PassRun → σ → Option (SiteOutcome σ))

def addInlineDiag (diags : List InlineDiag) (node : NodeId) (message : String) : List InlineDiag :=
  if 32 ≤ diags.length then diags else diags ++ [⟨node, message⟩]

/-- One site; the callee that was built in, if the graph verifies. -/
def tryInlineSite (call : NodeId) (depth : Nat) (stack : List Nat) (s : Inlining σ) :
    Option (Option Nat × Inlining σ) := do
  match ← site call depth stack s.run s.memo with
  | .refused memo => return (none, { s with memo })
  | .broken run memo message =>
    return (none, { s with run, memo, ok := false, diags := addInlineDiag s.diags call message })
  | .built run memo callee =>
    let v ← run.g.verify
    let built := { s with run, memo, history := s.history ++ [⟨s.run.g, run.g, v.ok⟩] }
    if v.ok then return (some callee, built)
    else
      let diags := v.diags.foldl (fun ds (d : VerifyDiag) =>
        addInlineDiag ds call s!"IR verify failed at n{d.node}: {d.message}") s.diags
      -- the decision is recorded only after the verification
      return (none, { built with memo := s.memo, ok := false, diags })

def isSite (k : NodeKind) : Bool :=
  k == .callStatic || (considerVirtual && (k == .callVirtual || k == .callInterface))

/-- The live call sites with ids from `id` up to `limit`; the sites of a body that was
built in follow at once, one level deeper. -/
def processRange : Nat → NodeId → NodeId → Nat → List Nat → Inlining σ → Option (Inlining σ)
  | 0, _, _, _, _, _ => none
  | fuel + 1, id, limit, depth, stack, s =>
    if id < limit ∧ s.ok = true then
      let nd := s.run.g.node id
      if nd.isDead = true ∨ isSite considerVirtual nd.kind = false ∨
          isJunkSink s.run.jk id = true then
        processRange fuel (id + 1) limit depth stack s
      else do
        let (inlined, s₁) ← tryInlineSite site id depth stack s
        let deeper : Option (Inlining σ) := match inlined with
          | some callee =>
            processRange fuel s.run.g.nodeCount s₁.run.g.nodeCount (depth + 1)
              (stack ++ [callee]) s₁
          | none => some s₁
        let s₂ ← deeper
        processRange fuel (id + 1) limit depth stack s₂
    else some s

def runInlining (fuel : Nat) (s : Inlining σ) : Option (Inlining σ) :=
  if enabled then processRange considerVirtual site fuel 1 s.run.g.nodeCount 1 [] s else some s

end Inliner

end B2Compiler.Passes
