import B2Compiler.Lib.Fuel
import B2Compiler.Passes.InlinerSites

/-!
# Runs of the inliner

The walk over the sites goes into every body it builds in, and the bodies are ranges of
nodes that the walk has made itself.  What bounds it is the depth: one level below the cap
every site is refused.  The stack that is passed along names the bodies the current range
is nested in, so a body is nested in bodies of other methods only.
-/

namespace B2Compiler.Passes

open Ir List
open Lib.Fuel
open Relation (ReflTransGen)

/-! ## The walk over the sites -/

section Walk

variable {σ : Type} (considerVirtual : Bool)
variable (site : NodeId → Nat → List Nat → PassRun → σ → Option (SiteOutcome σ))

/-- The walk passes over dead nodes, nodes that are no calls, and sinks. -/
def PassedOver (s : Inlining σ) (id : NodeId) : Prop :=
  (s.run.g.node id).isDead = true ∨ isSite considerVirtual (s.run.g.node id).kind = false ∨
    isJunkSink s.run.jk id = true

instance (s : Inlining σ) (id : NodeId) : Decidable (PassedOver considerVirtual s id) :=
  inferInstanceAs (Decidable (_ ∨ _))

/-- The sites of the body that was built in at a site, if there is one. -/
def processBody (fuel : Nat) (first : NodeId) (depth : Nat) (stack : List Nat)
    (inlined : Option Nat) (s : Inlining σ) : Option (Inlining σ) :=
  match inlined with
  | some callee =>
    processRange considerVirtual site fuel first s.run.g.nodeCount (depth + 1) (stack ++ [callee]) s
  | none => some s

variable {considerVirtual site}

theorem processRange_succ (fuel : Nat) (id limit : NodeId) (depth : Nat) (stack : List Nat)
    (s : Inlining σ) :
    processRange considerVirtual site (fuel + 1) id limit depth stack s =
      if id < limit ∧ s.ok = true then
        if PassedOver considerVirtual s id then
          processRange considerVirtual site fuel (id + 1) limit depth stack s
        else (tryInlineSite site id depth stack s).bind fun r =>
          (processBody considerVirtual site fuel s.run.g.nodeCount depth stack r.1 r.2).bind
            (processRange considerVirtual site fuel (id + 1) limit depth stack)
      else some s :=
  rfl

/-- More fuel changes nothing, by induction on the fuel. -/
theorem processRange_steady (id limit : NodeId) (depth : Nat) (stack : List Nat) (s : Inlining σ) :
    Steady fun n => processRange considerVirtual site n id limit depth stack s := by
  intro n m s' hnm h
  induction n generalizing m id limit depth stack s s' with
  | zero => cases h
  | succ n ih =>
    obtain ⟨m, rfl⟩ := Nat.exists_eq_add_of_lt hnm
    have hLe : n ≤ n + m := Nat.le_add_right n m
    dsimp only at h ⊢
    rw [processRange_succ] at h
    rw [show n + m + 1 = (n + m) + 1 from rfl, processRange_succ]
    split_ifs at h ⊢ with hMore hPassed
    · exact ih _ _ _ _ _ _ _ hLe h
    · obtain ⟨⟨inlined, s₁⟩, hTry, h⟩ := Option.bind_eq_some_iff.mp h
      obtain ⟨s₂, hBody, h⟩ := Option.bind_eq_some_iff.mp h
      have hBody' : processBody considerVirtual site (n + m) s.run.g.nodeCount depth stack
          inlined s₁ = some s₂ := by
        cases inlined with
        | none => exact hBody
        | some callee => exact ih _ _ _ _ _ _ _ hLe hBody
      exact Option.bind_eq_some_iff.mpr ⟨_, hTry, Option.bind_eq_some_iff.mpr
        ⟨s₂, hBody', ih _ _ _ _ _ _ _ hLe h⟩⟩
    · exact h

theorem processBody_steady (first : NodeId) (depth : Nat) (stack : List Nat)
    (inlined : Option Nat) (s : Inlining σ) :
    Steady fun n => processBody considerVirtual site n first depth stack inlined s := by
  cases inlined with
  | none => exact steady_const _
  | some callee => exact processRange_steady _ _ _ _ _

structure Walk (σ : Type) where
  id : NodeId
  limit : NodeId
  depth : Nat
  stack : List Nat
  state : Inlining σ

/-- The walk over the rest of a range. -/
def Walk.Ends (considerVirtual : Bool)
    (site : NodeId → Nat → List Nat → PassRun → σ → Option (SiteOutcome σ)) (w : Walk σ)
    (s : Inlining σ) : Prop :=
  Returns (fun n => processRange considerVirtual site n w.id w.limit w.depth w.stack w.state) s

/-- The walk stands at a call site. -/
structure Walk.AtSite (considerVirtual : Bool) (w : Walk σ) : Prop where
  more : w.id < w.limit
  ok : w.state.ok = true
  site : ¬ PassedOver considerVirtual w.state w.id

/-- The walks a walk leads to: on to the next node, or into a body. -/
inductive Walk.Step (considerVirtual : Bool)
    (site : NodeId → Nat → List Nat → PassRun → σ → Option (SiteOutcome σ)) :
    Walk σ → Walk σ → Prop where
  | pass {w : Walk σ} (hMore : w.id < w.limit) (hOk : w.state.ok = true)
      (hPassed : PassedOver considerVirtual w.state w.id) :
      Step considerVirtual site w { w with id := w.id + 1 }
  | body {w : Walk σ} {callee : Nat} {s : Inlining σ} (hSite : w.AtSite considerVirtual)
      (hTry : tryInlineSite site w.id w.depth w.stack w.state = some (some callee, s)) :
      Step considerVirtual site w
        ⟨w.state.run.g.nodeCount, s.run.g.nodeCount, w.depth + 1, w.stack ++ [callee], s⟩
  | next {w : Walk σ} {inlined : Option Nat} {s s' : Inlining σ} (hSite : w.AtSite considerVirtual)
      (hTry : tryInlineSite site w.id w.depth w.stack w.state = some (inlined, s))
      (hBody : Returns (fun n => processBody considerVirtual site n w.state.run.g.nodeCount
        w.depth w.stack inlined s) s') :
      Step considerVirtual site w { w with id := w.id + 1, state := s' }

def Walk.Leads (considerVirtual : Bool)
    (site : NodeId → Nat → List Nat → PassRun → σ → Option (SiteOutcome σ)) :
    Walk σ → Walk σ → Prop :=
  ReflTransGen (Walk.Step considerVirtual site)

theorem Walk.ends_of_stop {w : Walk σ} (hStop : ¬ (w.id < w.limit ∧ w.state.ok = true)) :
    w.Ends considerVirtual site w.state :=
  ⟨1, by dsimp only; rw [processRange_succ, if_neg hStop]⟩

theorem Walk.ends_of_pass {w : Walk σ} {s : Inlining σ} (hMore : w.id < w.limit)
    (hOk : w.state.ok = true) (hPassed : PassedOver considerVirtual w.state w.id)
    (h : Walk.Ends considerVirtual site { w with id := w.id + 1 } s) :
    w.Ends considerVirtual site s := by
  obtain ⟨n, hn⟩ := h
  refine ⟨n + 1, ?_⟩
  dsimp only
  rw [processRange_succ, if_pos ⟨hMore, hOk⟩, if_pos hPassed]
  exact hn

theorem Walk.ends_of_site {w : Walk σ} {inlined : Option Nat} {s₁ s₂ s : Inlining σ}
    (hSite : w.AtSite considerVirtual)
    (hTry : tryInlineSite site w.id w.depth w.stack w.state = some (inlined, s₁))
    (hBody : Returns (fun n => processBody considerVirtual site n w.state.run.g.nodeCount
      w.depth w.stack inlined s₁) s₂)
    (h : Walk.Ends considerVirtual site { w with id := w.id + 1, state := s₂ } s) :
    w.Ends considerVirtual site s := by
  have hRest := Returns.bind (processBody_steady _ _ _ _ _) (processRange_steady _ _ _ _ _) hBody h
  obtain ⟨n, hn⟩ := hRest
  refine ⟨n + 1, ?_⟩
  dsimp only
  rw [processRange_succ, if_pos ⟨hSite.more, hSite.ok⟩, if_neg hSite.site, hTry]
  exact hn

end Walk

namespace Inline

variable {src : InlineCalleeSource} {cfg : InlineConfig}

/-! ## Bodies and what encloses them -/

/-- A body that was built in: the call it took the place of, its method, its nodes and the
depth of its call. -/
structure InlinedBody where
  call : NodeId
  method : Nat
  first : NodeId
  limit : NodeId
  depth : Nat
  deriving DecidableEq, Repr

/-- The body of a decision, in the nodes added between the graphs before and after it. -/
def bodyOf (d : InlineDecision) (e : PassEvent) : InlinedBody :=
  ⟨d.call, d.target.toNat, e.before.nodeCount, e.after.nodeCount, d.depth⟩

/-- The bodies of a run in the order in which they were built in. -/
def inlinedBodies (s : Inlining InlineMemo) : List InlinedBody :=
  zipWith bodyOf s.memo.inlinedDecisions s.history

def InlinedBody.Encloses (outer inner : InlinedBody) : Prop :=
  outer.first ≤ inner.call ∧ inner.call < outer.limit

/-- A chain of bodies, each in the one before. -/
def NestedIn (s : Inlining InlineMemo) (chain : List InlinedBody) : Prop :=
  (∀ b ∈ chain, b ∈ inlinedBodies s) ∧ chain.IsChain InlinedBody.Encloses

/-- While the run goes on there is a decision for each verification. -/
def Recorded (s : Inlining InlineMemo) : Prop :=
  s.memo.inlinedDecisions.length = s.history.length

/-- What a site answers and leaves. -/
inductive SiteStep (cfg : InlineConfig) (call : NodeId) (depth : Nat) (stack : List Nat)
    (s : Inlining InlineMemo) : Option Nat → Inlining InlineMemo → Prop where
  | refused (memo : InlineMemo) (hMemo : memo.inlinedDecisions = s.memo.inlinedDecisions) :
      SiteStep cfg call depth stack s none { s with memo }
  | failed (s' : Inlining InlineMemo) (hStop : s'.ok = false)
      (hBodies : inlinedBodies s' = inlinedBodies s) :
      SiteStep cfg call depth stack s none s'
  | built (s' : Inlining InlineMemo) (callee : Nat) (hAnchored : Anchored s'.run)
      (hCount : s.run.g.nodeCount ≤ s'.run.g.nodeCount) (hDepth : depth ≤ cfg.maxDepth)
      (hStack : callee ∉ stack) (hRecorded : Recorded s')
      (hBodies : inlinedBodies s' = inlinedBodies s ++
        [⟨call, callee, s.run.g.nodeCount, s'.run.g.nodeCount, depth⟩]) :
      SiteStep cfg call depth stack s (some callee) s'

theorem tryInlineSite_comes {call : NodeId} {depth : Nat} {stack : List Nat}
    {s : Inlining InlineMemo} (hAnchored : Anchored s.run) (hRecorded : Recorded s)
    (hSettled : Settled src cfg call depth stack s) :
    ∃ inlined s', tryInlineSite (inlineSite src cfg) call depth stack s = some (inlined, s') ∧
      SiteStep cfg call depth stack s inlined s' := by
  obtain ⟨o, hSite, hSpec⟩ := inlineSite_comes hAnchored hSettled
  unfold tryInlineSite
  rw [hSite]
  cases o with
  | refused memo => exact ⟨none, _, rfl, .refused memo hSpec⟩
  | broken run memo message =>
    refine ⟨none, _, rfl, .failed _ rfl ?_⟩
    rw [hSpec]
    rfl
  | built run memo callee =>
    obtain ⟨hCalm, hCount, hDepth, hStack, d, hMemo, hCall, hTarget, hAt⟩ := hSpec
    obtain ⟨v, hVerify⟩ :=
      ((Image.total_iff run.g.image fun n => !(run.g.usesOf n).isEmpty).mpr
        hCalm.answered).verify
    have hVerify' : run.g.verify = some v := hVerify
    simp only [Option.bind_eq_bind, Option.bind_some, hVerify']
    rcases hVerdict : v.ok with _ | _
    · refine ⟨none, _, rfl, .failed _ rfl ?_⟩
      -- the event of a failed verification has no decision
      have hZip : zipWith bodyOf (s.memo.inlinedDecisions ++ [])
          (s.history ++ [⟨s.run.g, run.g, v.ok⟩]) = _ := zipWith_append hRecorded
      rw [append_nil, zipWith_nil_left, append_nil, hVerdict] at hZip
      exact hZip
    · refine ⟨some callee, _, rfl, .built _ callee hCalm.toAnchored hCount hDepth hStack ?_ ?_⟩
      · show memo.inlinedDecisions.length = (s.history ++ [_]).length
        rw [hMemo, length_append, length_append, hRecorded]
        rfl
      · show zipWith bodyOf memo.inlinedDecisions (s.history ++ [_]) = _
        rw [hMemo, zipWith_append hRecorded, ← hCall, ← hTarget, ← hAt]
        rfl

/-! ## The frames of a body -/

structure FramedBody where
  body : InlinedBody
  frames : List Nat

/-- Every body of the run has its frames: no method twice, no more than the cap, and a body
that encloses another one lends it all of its frames. -/
structure Framed (cfg : InlineConfig) (log : List FramedBody) (s : Inlining InlineMemo) :
    Prop where
  bodies : log.map FramedBody.body = inlinedBodies s
  nodup : ∀ r ∈ log, r.frames.Nodup
  last : ∀ r ∈ log, [r.body.method] <:+ r.frames
  depth : ∀ r ∈ log, r.frames.length = r.body.depth ∧ r.body.depth ≤ cfg.maxDepth
  nested : ∀ r ∈ log, ∀ r' ∈ log, r.body.Encloses r'.body → r'.frames = r.frames ++ [r'.body.method]

/-- What a run that goes on can rely on. -/
structure Standing (log : List FramedBody) (s : Inlining InlineMemo) : Prop where
  anchored : Anchored s.run
  recorded : Recorded s
  below : ∀ r ∈ log, r.body.call < s.run.g.nodeCount ∧ r.body.limit ≤ s.run.g.nodeCount

/-- A walk over a range of nodes: the stack names the frames of every body that a node of
the range can lie in. -/
structure Placed (log : List FramedBody) (w : Walk InlineMemo) : Prop where
  length : w.stack.length + 1 = w.depth
  nodup : w.stack.Nodup
  limit : w.limit ≤ w.state.run.g.nodeCount
  frames : ∀ r ∈ log, ∀ i, w.id ≤ i → i < w.limit → r.body.first ≤ i → i < r.body.limit →
    r.frames = w.stack

/-- The body that was built in at the node a walk stands at. -/
def builtBody (w : Walk InlineMemo) (s : Inlining InlineMemo) (callee : Nat) : FramedBody :=
  ⟨⟨w.id, callee, w.state.run.g.nodeCount, s.run.g.nodeCount, w.depth⟩, w.stack ++ [callee]⟩

section Built

variable {log : List FramedBody} {w : Walk InlineMemo} {s : Inlining InlineMemo} {callee : Nat}

theorem framed_built (hFramed : Framed cfg log w.state) (hStanding : Standing log w.state)
    (hPlaced : Placed log w) (hMore : w.id < w.limit) (hDepth : w.depth ≤ cfg.maxDepth)
    (hStack : callee ∉ w.stack)
    (hBodies : inlinedBodies s = inlinedBodies w.state ++ [(builtBody w s callee).body]) :
    Framed cfg (log ++ [builtBody w s callee]) s where
  bodies := by
    rw [map_append, hFramed.bodies, hBodies]
    rfl
  nodup r hr := by
    rcases mem_append.mp hr with hOld | hNew
    · exact hFramed.nodup r hOld
    · rw [mem_singleton.mp hNew]
      exact nodup_append.mpr ⟨hPlaced.nodup, nodup_singleton _, fun a ha b hb hEq =>
        hStack (by rw [← mem_singleton.mp hb, ← hEq]; exact ha)⟩
  last r hr := by
    rcases mem_append.mp hr with hOld | hNew
    · exact hFramed.last r hOld
    · rw [mem_singleton.mp hNew]
      exact suffix_append _ _
  depth r hr := by
    rcases mem_append.mp hr with hOld | hNew
    · exact hFramed.depth r hOld
    · rw [mem_singleton.mp hNew]
      refine ⟨?_, hDepth⟩
      show (w.stack ++ [callee]).length = w.depth
      rw [length_append]
      exact hPlaced.length
  nested r hr r' hr' hEncloses := by
    have hId : w.id < w.state.run.g.nodeCount := Nat.lt_of_lt_of_le hMore hPlaced.limit
    rcases mem_append.mp hr with hOld | hNew
    · rcases mem_append.mp hr' with hOld' | hNew'
      · exact hFramed.nested r hOld r' hOld' hEncloses
      · rw [mem_singleton.mp hNew'] at hEncloses ⊢
        rw [hPlaced.frames r hOld w.id (Nat.le_refl _) hMore hEncloses.1 hEncloses.2]
        rfl
    · -- the nodes of the new body are above every call so far
      rw [mem_singleton.mp hNew] at hEncloses
      have hFirst : w.state.run.g.nodeCount ≤ r'.body.call := hEncloses.1
      rcases mem_append.mp hr' with hOld' | hNew'
      · exact absurd hFirst (Nat.not_le_of_lt (hStanding.below r' hOld').1)
      · rw [mem_singleton.mp hNew'] at hFirst
        exact absurd hFirst (Nat.not_le_of_lt hId)

theorem standing_built (hStanding : Standing log w.state) (hPlaced : Placed log w)
    (hMore : w.id < w.limit) (hAnchored : Anchored s.run)
    (hCount : w.state.run.g.nodeCount ≤ s.run.g.nodeCount) (hRecorded : Recorded s) :
    Standing (log ++ [builtBody w s callee]) s where
  anchored := hAnchored
  recorded := hRecorded
  below r hr := by
    rcases mem_append.mp hr with hOld | hNew
    · obtain ⟨hCall, hLimit⟩ := hStanding.below r hOld
      exact ⟨Nat.lt_of_lt_of_le hCall hCount, Nat.le_trans hLimit hCount⟩
    · rw [mem_singleton.mp hNew]
      exact ⟨Nat.lt_of_lt_of_le hMore (Nat.le_trans hPlaced.limit hCount), Nat.le_refl _⟩

/-- The walk goes into the nodes of the new body, and into no others. -/
theorem placed_body (hStanding : Standing log w.state) (hPlaced : Placed log w)
    (hStack : callee ∉ w.stack) :
    Placed (log ++ [builtBody w s callee])
      ⟨w.state.run.g.nodeCount, s.run.g.nodeCount, w.depth + 1, w.stack ++ [callee], s⟩ where
  length := by
    rw [length_append, ← hPlaced.length]
    rfl
  nodup := nodup_append.mpr ⟨hPlaced.nodup, nodup_singleton _, fun a ha b hb hEq =>
    hStack (by rw [← mem_singleton.mp hb, ← hEq]; exact ha)⟩
  limit := Nat.le_refl _
  frames r hr i hLow hHigh hFirst hLimit := by
    rcases mem_append.mp hr with hOld | hNew
    · have hBelow := Nat.le_trans (hStanding.below r hOld).2 hLow
      exact absurd hBelow (Nat.not_le_of_lt hLimit)
    · rw [mem_singleton.mp hNew]
      rfl

/-- The rest of the range, when every body that came meanwhile lies above it. -/
theorem placed_next {log' : List FramedBody} (hPlaced : Placed log w)
    (hCount : w.state.run.g.nodeCount ≤ s.run.g.nodeCount)
    (hNew : ∀ r ∈ log', r ∈ log ∨ w.state.run.g.nodeCount ≤ r.body.first) :
    Placed log' { w with id := w.id + 1, state := s } where
  length := hPlaced.length
  nodup := hPlaced.nodup
  limit := Nat.le_trans hPlaced.limit hCount
  frames r hr i hLow hHigh hFirst hLimit := by
    rcases hNew r hr with hOld | hAbove
    · exact hPlaced.frames r hOld i (Nat.le_of_succ_le hLow) hHigh hFirst hLimit
    · have hBelow := Nat.lt_of_lt_of_le hHigh hPlaced.limit
      exact absurd (Nat.le_trans hAbove hFirst) (Nat.not_le_of_lt hBelow)

end Built

/-! ## Every run -/

/-- The sites a walk comes to are settled. -/
def AllSettled (src : InlineCalleeSource) (cfg : InlineConfig) (considerVirtual : Bool)
    (w : Walk InlineMemo) : Prop :=
  ∀ w', Walk.Leads considerVirtual (inlineSite src cfg) w w' → w'.AtSite considerVirtual →
    Settled src cfg w'.id w'.depth w'.stack w'.state

/-- What a walk ends with: the bodies have their frames, and those that came meanwhile lie
above the nodes that were there. -/
def EndsFramed (cfg : InlineConfig) (log : List FramedBody) (before s : Inlining InlineMemo) :
    Prop :=
  ∃ log', Framed cfg log' s ∧
    (s.ok = true → Standing log' s ∧ before.run.g.nodeCount ≤ s.run.g.nodeCount) ∧
    ∀ r ∈ log', r ∈ log ∨ before.run.g.nodeCount ≤ r.body.first

section Runs

variable {considerVirtual : Bool} {log : List FramedBody} {w : Walk InlineMemo}

theorem endsFramed_refl {s : Inlining InlineMemo} (hFramed : Framed cfg log s)
    (hStanding : s.ok = true → Standing log s) : EndsFramed cfg log s s :=
  ⟨log, hFramed, fun hOk => ⟨hStanding hOk, Nat.le_refl _⟩, fun _ => .inl⟩

theorem AllSettled.step {w' : Walk InlineMemo} (h : AllSettled src cfg considerVirtual w)
    (hStep : Walk.Step considerVirtual (inlineSite src cfg) w w') :
    AllSettled src cfg considerVirtual w' :=
  fun w'' hLeads => h w'' (ReflTransGen.head hStep hLeads)

theorem Framed.congr {s s' : Inlining InlineMemo} (h : Framed cfg log s)
    (hBodies : inlinedBodies s' = inlinedBodies s) : Framed cfg log s' :=
  { h with bodies := h.bodies.trans hBodies.symm }

/-- At a site: if the walk over the body that is built in ends, the run comes to the next
node. -/
theorem site_ends_of_bodies {inlined : Option Nat} {s₁ : Inlining InlineMemo}
    (hSite : w.AtSite considerVirtual)
    (hTry : tryInlineSite (inlineSite src cfg) w.id w.depth w.stack w.state = some (inlined, s₁))
    (hStep : SiteStep cfg w.id w.depth w.stack w.state inlined s₁)
    (hBodies : ∀ w' log', w'.depth = w.depth + 1 → w.depth ≤ cfg.maxDepth →
      Framed cfg log' w'.state → Standing log' w'.state → Placed log' w' →
      AllSettled src cfg considerVirtual w' →
      ∃ s, w'.Ends considerVirtual (inlineSite src cfg) s ∧ EndsFramed cfg log' w'.state s)
    (hFramed : Framed cfg log w.state) (hStanding : Standing log w.state)
    (hPlaced : Placed log w) (hSettled : AllSettled src cfg considerVirtual w) :
    ∃ s₂, Returns (fun n => processBody considerVirtual (inlineSite src cfg) n
      w.state.run.g.nodeCount w.depth w.stack inlined s₁) s₂ ∧
      EndsFramed cfg log w.state s₂ := by
  cases hStep with
  | refused memo hMemo =>
    have hSame : inlinedBodies { w.state with memo } = inlinedBodies w.state :=
      congrArg (zipWith bodyOf · w.state.history) hMemo
    have hStanding' : Standing log { w.state with memo } :=
      ⟨hStanding.anchored, (congrArg length hMemo).trans hStanding.recorded, hStanding.below⟩
    exact ⟨_, ⟨0, rfl⟩, log, hFramed.congr hSame, fun _ => ⟨hStanding', Nat.le_refl _⟩,
      fun _ => .inl⟩
  | failed s' hStop hSame =>
    exact ⟨_, ⟨0, rfl⟩, log, hFramed.congr hSame,
      fun hOk => absurd (hStop.symm.trans hOk) (by decide), fun _ => .inl⟩
  | built s' callee hAnchored hCount hDepth hStack hRecorded hBuilt =>
    obtain ⟨s, hEnds, log', hFramed', hStanding', hNew⟩ := hBodies _ _ rfl hDepth
      (framed_built hFramed hStanding hPlaced hSite.more hDepth hStack hBuilt)
      (standing_built hStanding hPlaced hSite.more hAnchored hCount hRecorded)
      (placed_body hStanding hPlaced hStack) (hSettled.step (.body hSite hTry))
    refine ⟨s, hEnds, log', hFramed', ?_, ?_⟩
    · intro hOk
      exact ⟨(hStanding' hOk).1, Nat.le_trans hCount (hStanding' hOk).2⟩
    intro r hr
    rcases hNew r hr with hOld | hAbove
    · rcases mem_append.mp hOld with hOld | hHere
      · exact .inl hOld
      · rw [mem_singleton.mp hHere]
        exact .inr (Nat.le_refl _)
    · exact .inr (Nat.le_trans hCount hAbove)

/-- One level: the walk over the rest of a range ends, if the walks over the bodies that are
built in on its way do.  By induction on the length of the range. -/
theorem walk_ends_of_bodies {left : Nat} (hLeft : w.limit - w.id = left)
    (hBodies : ∀ w' log', w'.depth = w.depth + 1 → w.depth ≤ cfg.maxDepth →
      Framed cfg log' w'.state → Standing log' w'.state → Placed log' w' →
      AllSettled src cfg considerVirtual w' →
      ∃ s, w'.Ends considerVirtual (inlineSite src cfg) s ∧ EndsFramed cfg log' w'.state s)
    (hFramed : Framed cfg log w.state) (hStanding : w.state.ok = true → Standing log w.state)
    (hPlaced : Placed log w) (hSettled : AllSettled src cfg considerVirtual w) :
    ∃ s, w.Ends considerVirtual (inlineSite src cfg) s ∧ EndsFramed cfg log w.state s := by
  induction left generalizing w log with
  | zero =>
    have hStop : ¬ (w.id < w.limit ∧ w.state.ok = true) :=
      fun h => absurd h.1 (Nat.not_lt_of_le (Nat.le_of_sub_eq_zero hLeft))
    exact ⟨w.state, Walk.ends_of_stop hStop, endsFramed_refl hFramed hStanding⟩
  | succ left ih =>
    have hMore : w.id < w.limit := Nat.lt_of_sub_eq_succ hLeft
    have hRest : w.limit - (w.id + 1) = left := by
      rw [Nat.sub_succ, hLeft]
      rfl
    by_cases hOk : w.state.ok = true
    · by_cases hPassed : PassedOver considerVirtual w.state w.id
      · obtain ⟨s, hEnds, hEnd⟩ := ih (w := { w with id := w.id + 1 }) hRest hBodies hFramed
          hStanding (placed_next hPlaced (Nat.le_refl _) fun _ => .inl)
          (hSettled.step (.pass hMore hOk hPassed))
        exact ⟨s, Walk.ends_of_pass hMore hOk hPassed hEnds, hEnd⟩
      · have hSite : w.AtSite considerVirtual := ⟨hMore, hOk, hPassed⟩
        have hHere := hStanding hOk
        obtain ⟨inlined, s₁, hTry, hStep⟩ := tryInlineSite_comes hHere.anchored hHere.recorded
          (hSettled w .refl hSite)
        obtain ⟨s₂, hBody, log₂, hFramed₂, hStanding₂, hNew₂⟩ :=
          site_ends_of_bodies hSite hTry hStep hBodies hFramed hHere hPlaced hSettled
        by_cases hOk₂ : s₂.ok = true
        · obtain ⟨hHere₂, hCount₂⟩ := hStanding₂ hOk₂
          obtain ⟨s, hEnds, log', hFramed', hStanding', hNew'⟩ :=
            ih (w := { w with id := w.id + 1, state := s₂ }) hRest hBodies hFramed₂
              (fun _ => hHere₂) (placed_next hPlaced hCount₂ hNew₂)
              (hSettled.step (.next hSite hTry hBody))
          refine ⟨s, Walk.ends_of_site hSite hTry hBody hEnds, log', hFramed', ?_, ?_⟩
          · intro hOk'
            exact ⟨(hStanding' hOk').1, Nat.le_trans hCount₂ (hStanding' hOk').2⟩
          · intro r hr
            rcases hNew' r hr with hOld | hAbove
            · exact hNew₂ r hOld
            · exact .inr (Nat.le_trans hCount₂ hAbove)
        · exact ⟨s₂, Walk.ends_of_site hSite hTry hBody
            (Walk.ends_of_stop fun h => hOk₂ h.2), log₂, hFramed₂, hStanding₂, hNew₂⟩
    · exact ⟨w.state, Walk.ends_of_stop fun h => hOk h.2, endsFramed_refl hFramed hStanding⟩

/-- Every walk ends, by induction on the levels that are left: below the cap no body is
built in. -/
theorem walk_ends {levels : Nat} (hLevels : cfg.maxDepth + 1 ≤ w.depth + levels)
    (hFramed : Framed cfg log w.state) (hStanding : w.state.ok = true → Standing log w.state)
    (hPlaced : Placed log w) (hSettled : AllSettled src cfg considerVirtual w) :
    ∃ s, w.Ends considerVirtual (inlineSite src cfg) s ∧ EndsFramed cfg log w.state s := by
  induction levels generalizing w log with
  | zero =>
    refine walk_ends_of_bodies rfl ?_ hFramed hStanding hPlaced hSettled
    intro w' log' _ hDepth
    exact absurd hLevels (Nat.not_le_of_lt (Nat.lt_succ_of_le hDepth))
  | succ levels ih =>
    refine walk_ends_of_bodies rfl ?_ hFramed hStanding hPlaced hSettled
    intro w' log' hDeeper _ hFramed' hStanding' hPlaced' hSettled'
    exact ih (by omega) hFramed' (fun _ => hStanding') hPlaced' hSettled'

/-- A chain of bodies leads to the frames of the last one, by induction on what follows
its first body. -/
theorem Framed.chain {s : Inlining InlineMemo} (h : Framed cfg log s) {rest : List InlinedBody}
    {r : FramedBody} (hr : r ∈ log) (hNested : NestedIn s (r.body :: rest)) :
    ∃ r' ∈ log, r'.frames = r.frames ++ rest.map InlinedBody.method := by
  induction rest generalizing r with
  | nil => exact ⟨r, hr, (append_nil _).symm⟩
  | cons b rest ih =>
    obtain ⟨hMem, hChain⟩ := hNested
    obtain ⟨hEncloses, hTail⟩ := isChain_cons_cons.mp hChain
    have hb : b ∈ log.map FramedBody.body := by
      rw [h.bodies]
      exact hMem b (mem_cons_of_mem _ mem_cons_self)
    obtain ⟨r₁, hr₁, rfl⟩ := mem_map.mp hb
    obtain ⟨r', hr', hFrames⟩ :=
      ih hr₁ ⟨fun c hc => hMem c (mem_cons_of_mem _ hc), hTail⟩
    refine ⟨r', hr', ?_⟩
    rw [hFrames, h.nested r hr r₁ hr₁ hEncloses, append_assoc]
    rfl

/-- No method stands twice on a chain of bodies, and no chain is longer than the cap. -/
theorem Framed.bounds {s : Inlining InlineMemo} (h : Framed cfg log s)
    {chain : List InlinedBody} (hNested : NestedIn s chain) :
    (chain.map InlinedBody.method).Nodup ∧ chain.length ≤ cfg.maxDepth := by
  cases chain with
  | nil => exact ⟨nodup_nil, Nat.zero_le _⟩
  | cons b rest =>
    have hb : b ∈ log.map FramedBody.body := by
      rw [h.bodies]
      exact hNested.1 b mem_cons_self
    obtain ⟨r, hr, rfl⟩ := mem_map.mp hb
    obtain ⟨r', hr', hFrames⟩ := h.chain hr hNested
    obtain ⟨outer, hOuter⟩ := h.last r hr
    have hSuffix : (r.body :: rest).map InlinedBody.method <:+ r'.frames := by
      refine ⟨outer, ?_⟩
      rw [hFrames, ← hOuter, append_assoc]
      rfl
    refine ⟨hSuffix.sublist.nodup (h.nodup r' hr'), ?_⟩
    calc (r.body :: rest).length = ((r.body :: rest).map InlinedBody.method).length :=
          (length_map _).symm
      _ ≤ r'.frames.length := hSuffix.length_le
      _ = r'.body.depth := (h.depth r' hr').1
      _ ≤ cfg.maxDepth := (h.depth r' hr').2

end Runs

/-- A run starts at the node behind the start node, at depth one. -/
def rootWalk (g : Store) : Walk InlineMemo :=
  { id := 1, limit := g.nodeCount, depth := 1, stack := [], state := { run := { g }, memo := {} } }

theorem anchored_root (calls : List Call) : Anchored { g := Store.fresh.run calls } where
  ok := Store.ok_fresh.run calls
  start := by
    have hMade := Store.made_fresh.run calls
    refine ⟨hMade.nonempty, ?_⟩
    show QuietKind ((Store.fresh.run calls).node 0).kind
    rw [hMade.start.1]
    decide
  singles n hn hValid := by
    simp only [Junk.singles, mem_cons, not_mem_nil, or_false, or_self] at hn
    exact absurd hn hValid
  regions n hn := by cases hn

end Inline

end B2Compiler.Passes
