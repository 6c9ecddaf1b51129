import B2Compiler.Ir.QuietSteps
import B2Compiler.Ir.Trimming
import B2Compiler.Passes.Support

/-!
# What making sinks changes

Pass code runs in a state transformer that may not come back; the first section peels its
steps apart.  The rest says what the rewiring of one node's edges can do to a graph: nodes
are made that read nothing but the start node, the edges of that one node move onto sinks,
and everything else stays as it is.
-/

namespace B2Compiler.Passes

open Ir List Option Nat Store IRType Graph

/-! ## Runs of pass code -/

section Runs

variable {α β : Type} {s s' : PassRun}

theorem run_bind_eq_some {x : PassM α} {f : α → PassM β} {b : β} : (x >>= f).run s = some (b, s') ↔
      ∃ a t, x.run s = some (a, t) ∧ (f a).run t = some (b, s') := by
  rw [StateT.run_bind, bind_eq_bind, bind_eq_some_iff]
  constructor
  · rintro ⟨⟨a, t⟩, hx, hf⟩
    exact ⟨a, t, hx, hf⟩
  · rintro ⟨a, t, hx, hf⟩
    exact ⟨(a, t), hx, hf⟩

theorem run_pure_eq_some {a b : α} : (pure a : PassM α).run s = some (b, s') ↔ b = a ∧ s' = s := by
  rw [StateT.run_pure, Option.pure_def, Option.some_inj, Prod.mk.injEq]
  exact ⟨fun h => ⟨h.1.symm, h.2.symm⟩, fun h => ⟨h.1.symm, h.2.symm⟩⟩

/-- Reading the graph goes on with the graph of the state. -/
theorem run_bind_graph (f : Store → PassM β) : (graph >>= f).run s = (f s.g).run s := rfl

@[simp] theorem run_get : (get : PassM PassRun).run s = some (s, s) := rfl

@[simp] theorem run_modify (f : PassRun → PassRun) :
    (modify f : PassM Unit).run s = some ((), f s) := rfl

@[simp] theorem run_making (f : Store → Store × NodeId) :
    (making f).run s = some ((f s.g).2, { s with g := (f s.g).1 }) := rfl

@[simp] theorem run_onGraph (f : Store → Store) :
    (onGraph f).run s = some ((), { s with g := f s.g }) := rfl

theorem run_typeOf {n : NodeId} {t : RawType} :
    (typeOf n).run s = some (t, s') ↔ s' = s ∧ s.g.image.typeOf n = some t := by
  unfold typeOf
  rw [run_bind_graph]
  constructor
  · intro h
    rcases hType : s.g.image.typeOf n with _ | t'
    · rw [hType] at h
      cases h
    · rw [hType] at h
      cases h
      exact ⟨rfl, rfl⟩
  · rintro ⟨rfl, hType⟩
    rw [hType]
    rfl

/-- Taking a unit of the budget, or finding it used up. -/
theorem run_charge {ok : Bool} (h : charge.run s = some (ok, s')) :
    (ok = true ∧ s' = { s with b := { s.b with used := s.b.used + 1 } } ∧ s.b.exceeded = false) ∨
      (ok = false ∧ s' = { s with b := { s.b with exceeded := true } }) := by
  unfold charge at h
  rw [run_bind_eq_some] at h
  obtain ⟨a, t, hGet, h⟩ := h
  rw [run_get] at hGet
  cases hGet
  split at h
  · cases h
    exact .inr ⟨rfl, rfl⟩
  · rename_i hCond
    cases h
    rw [not_or, Bool.not_eq_true] at hCond
    exact .inl ⟨rfl, rfl, hCond.1⟩

end Runs

/-! ## Sinks -/

/-- The typed zeros made so far. -/
def Junk.constants (jk : Junk) : List NodeId :=
  [jk.constI, jk.constL, jk.constF, jk.constD, jk.constNull]

structure JunkInGraph (s : PassRun) : Prop where
  constants : ∀ n ∈ s.jk.constants, n ≠ kInvalidNodeId → n < s.g.nodes.length
  regions : ∀ n ∈ s.jk.regionSinks,
    n < s.g.nodes.length ∧ (s.g.node n).kind = .region ∧ (s.g.node n).isDead = false

/-- What every pass relies on: slices and use lists are in order. -/
structure Tidy (s : PassRun) : Prop where
  ok : s.g.Ok
  uses : s.g.UseDef
  start : 0 < s.g.nodes.length
  junk : JunkInGraph s

/-- A node the edges of a tombstone may be moved to. -/
def IsSink (s : PassRun) (n : NodeId) : Prop :=
  n = startNode ∨ n ∈ s.jk.regionSinks ∨
    (n ∈ s.jk.constants ∧ n ≠ kInvalidNodeId ∧ (s.g.node n).isDead = false)

theorem IsSink.lt {s : PassRun} (hTidy : Tidy s) {n : NodeId} (h : IsSink s n) :
    n < s.g.nodes.length := by
  rcases h with rfl | hRegion | ⟨hMem, hValid, -⟩
  · exact hTidy.start
  · exact (hTidy.junk.regions n hRegion).1
  · exact hTidy.junk.constants n hMem hValid

theorem IsSink.live {s : PassRun} (hTidy : Tidy s) {n : NodeId} (h : IsSink s n) : s.g.Live n := by
  rcases h with hStart | hRegion | ⟨hMem, hValid, hDead⟩
  · exact .inl hStart
  · obtain ⟨hLt, -, hDead⟩ := hTidy.junk.regions n hRegion
    exact .inr ⟨hLt, hDead⟩
  · exact .inr ⟨hTidy.junk.constants n hMem hValid, hDead⟩

/-! ## Making sinks -/

/-- What is made as a sink: a region over the start node, or a constant. -/
structure SinkNode (g : Store) (m : NodeId) : Prop where
  alive : (g.node m).isDead = false
  reads : ∀ a ∈ g.inputs m, a = startNode
  shape : (g.node m).kind = .region ∨ g.inputs m = []

theorem SinkNode.congr {g g' : Store} {m : NodeId} (h : SinkNode g m)
    (hNode : g'.node m = g.node m) (hInputs : g'.inputs m = g.inputs m) : SinkNode g' m where
  alive := by rw [hNode]; exact h.alive
  reads := by rw [hInputs]; exact h.reads
  shape := by rw [hNode, hInputs]; exact h.shape

/-- Sinks were made; what was there is as it was. -/
structure Makes (s s' : PassRun) : Prop where
  tidy : Tidy s'
  length : s.g.nodes.length ≤ s'.g.nodes.length
  node : ∀ m, m < s.g.nodes.length → s'.g.node m = s.g.node m
  inputs : ∀ m, m < s.g.nodes.length → s'.g.inputs m = s.g.inputs m
  fresh : ∀ m, s.g.nodes.length ≤ m → m < s'.g.nodes.length → SinkNode s'.g m
  sinks : ∀ m, IsSink s m → IsSink s' m
  frames : s'.g.fsDesc = s.g.fsDesc ∧ s'.g.fsVobjs = s.g.fsVobjs
  counts : s'.b = s.b ∧ s'.t = s.t

section

variable {s s' s'' : PassRun}

theorem makes_refl (hTidy : Tidy s) : Makes s s where
  tidy := hTidy
  length := Nat.le_refl _
  node _ _ := rfl
  inputs _ _ := rfl
  fresh _ hLe hLt := absurd hLt (Nat.not_lt.mpr hLe)
  sinks _ h := h
  frames := ⟨rfl, rfl⟩
  counts := ⟨rfl, rfl⟩

theorem Makes.trans (h : Makes s s') (h' : Makes s' s'') : Makes s s'' where
  tidy := h'.tidy
  length := Nat.le_trans h.length h'.length
  node m hm := by
    rw [h'.node m (Nat.lt_of_lt_of_le hm h.length), h.node m hm]
  inputs m hm := by
    rw [h'.inputs m (Nat.lt_of_lt_of_le hm h.length), h.inputs m hm]
  fresh m hLe hLt := by
    by_cases hm : m < s'.g.nodes.length
    · exact (h.fresh m hLe hm).congr (h'.node m hm) (h'.inputs m hm)
    · exact h'.fresh m (Nat.le_of_not_lt hm) hLt
  sinks m hm := h'.sinks m (h.sinks m hm)
  frames := ⟨h'.frames.1.trans h.frames.1, h'.frames.2.trans h.frames.2⟩
  counts := ⟨h'.counts.1.trans h.counts.1, h'.counts.2.trans h.counts.2⟩

theorem makes_make (hTidy : Tidy s) {kind : NodeKind}
    {ins : List NodeId} (hIns : ∀ a ∈ ins, a = startNode)
    (hShape : kind = .region ∨ ins = []) (p p2 : BitVec 32) (c : BitVec 64) {jk : Junk}
    (hConstants : ∀ m ∈ jk.constants, m = s.g.nodes.length ∨ m ∈ s.jk.constants)
    (hRegions : ∀ m ∈ jk.regionSinks,
      (m = s.g.nodes.length ∧ kind = .region) ∨ m ∈ s.jk.regionSinks)
    (hSinks : ∀ m, IsSink s m → IsSink { s with jk } m) :
    Makes s { s with g := (s.g.makeRaw kind ins p p2 c).1, jk } := by
  have hNode : ∀ m, m < s.g.nodes.length → (s.g.makeRaw kind ins p p2 c).1.node m = s.g.node m := by
    intro m hm
    rw [makeRaw_node, if_neg (Nat.ne_of_lt hm)]
  have hInputs : ∀ m, m < s.g.nodes.length →
      (s.g.makeRaw kind ins p p2 c).1.inputs m = s.g.inputs m := by
    intro m hm
    rw [makeRaw_inputs _ _ _ _ _ hTidy.ok, if_neg (Nat.ne_of_lt hm)]
  have hLength : (s.g.makeRaw kind ins p p2 c).1.nodes.length = s.g.nodes.length + 1 :=
    makeRaw_length _ _ _ _ _
  have hMade : (s.g.makeRaw kind ins p p2 c).1.node s.g.nodes.length =
      { kind, edgeOffset := s.g.edgePool.length, numInputs := ins.length % 65536,
        payload := p, payload2 := p2, constValue := c } := by
    rw [makeRaw_node, if_pos rfl]
  have hAlive : ({} : NodeFlags).has .dead = false := by decide
  have hJunk : JunkInGraph { s with g := (s.g.makeRaw kind ins p p2 c).1, jk } := by
    constructor
    · intro m hm hValid
      show m < (s.g.makeRaw kind ins p p2 c).1.nodes.length
      rw [hLength]
      rcases hConstants m hm with rfl | hOld
      · exact lt_succ_self _
      · exact lt_succ_of_lt (hTidy.junk.constants m hOld hValid)
    · intro m hm
      show m < (s.g.makeRaw kind ins p p2 c).1.nodes.length ∧
        ((s.g.makeRaw kind ins p p2 c).1.node m).kind = .region ∧
          ((s.g.makeRaw kind ins p p2 c).1.node m).isDead = false
      rw [hLength]
      rcases hRegions m hm with ⟨rfl, hKind⟩ | hOld
      · rw [hMade]
        exact ⟨lt_succ_self _, hKind, hAlive⟩
      · obtain ⟨hLt, hRegion⟩ := hTidy.junk.regions m hOld
        rw [hNode m hLt]
        exact ⟨lt_succ_of_lt hLt, hRegion⟩
  constructor
  · refine ⟨hTidy.ok.makeRaw _ _ _ _ _, hTidy.uses.makeRaw hTidy.ok _ _ _ _ _ ?_, ?_, hJunk⟩
    · intro a ha
      rw [hIns a ha]
      exact hTidy.start
    · rw [hLength]
      exact succ_pos _
  · rw [hLength]
    exact le_succ _
  · exact hNode
  · exact hInputs
  · intro m hLe hLt
    rw [hLength] at hLt
    have hEq : m = s.g.nodes.length := Nat.le_antisymm (Nat.le_of_lt_succ hLt) hLe
    subst hEq
    have hNew : (s.g.makeRaw kind ins p p2 c).1.inputs s.g.nodes.length =
        ins.take (ins.length % 65536) := by
      rw [makeRaw_inputs _ _ _ _ _ hTidy.ok, if_pos rfl]
    refine ⟨?_, ?_, ?_⟩
    · rw [hMade]
      exact hAlive
    · intro a ha
      rw [hNew] at ha
      exact hIns a (mem_of_mem_take ha)
    · rw [hMade, hNew]
      rcases hShape with hRegion | hNil
      · exact .inl hRegion
      · rw [hNil]
        exact .inr rfl
  · intro m hm
    rcases hSinks m hm with hStart | hRegion | ⟨hMem, hValid, hDead⟩
    · exact .inl hStart
    · exact .inr (.inl hRegion)
    · refine .inr (.inr ⟨hMem, hValid, ?_⟩)
      rw [hNode m (hm.lt hTidy)]
      exact hDead
  · exact ⟨rfl, rfl⟩
  · exact ⟨rfl, rfl⟩

/-! ## Choosing a sink -/

/-- A field of the sinks that holds one typed zero. -/
structure ConstField (read : Junk → NodeId) (write : Junk → NodeId → Junk) : Prop where
  read_mem : ∀ jk, read jk ∈ jk.constants
  mem_write : ∀ jk n m, m ∈ (write jk n).constants → m = n ∨ m ∈ jk.constants
  write_mem : ∀ jk n, n ∈ (write jk n).constants
  kept : ∀ jk n m, m ∈ jk.constants → m ≠ read jk → m ∈ (write jk n).constants
  regions : ∀ jk n, (write jk n).regionSinks = jk.regionSinks

theorem constSink_spec {read : Junk → NodeId} {write : Junk → NodeId → Junk}
    (hField : ConstField read write) {kind : NodeKind} {c : BitVec 64} (hTidy : Tidy s)
    {v : NodeId}
    (h : (constSink read write fun g => g.makeRaw kind [] 0 0 c).run s = some (v, s')) :
    Makes s s' ∧ v < s'.g.nodes.length ∧ (v ≠ kInvalidNodeId → IsSink s' v) := by
  unfold constSink at h
  rw [run_bind_eq_some] at h
  obtain ⟨s₀, t₀, hGet, h⟩ := h
  cases hGet
  split at h
  · rename_i hMissing
    cases h
    have hMakes : Makes s { s with
        g := (s.g.makeRaw kind [] 0 0 c).1, jk := write s.jk s.g.nodes.length } := by
      apply makes_make hTidy (fun a ha => absurd ha not_mem_nil) (.inr rfl)
      · exact hField.mem_write _ _
      · intro m hm
        rw [hField.regions] at hm
        exact .inr hm
      rintro m (hStart | hRegion | ⟨hMem, hValid, hDead⟩)
      · exact .inl hStart
      · exact .inr (.inl (by rw [hField.regions]; exact hRegion))
      -- the field that is overwritten held no sink
      refine .inr (.inr ⟨hField.kept _ _ _ hMem ?_, hValid, hDead⟩)
      rintro rfl
      rw [sinkMissing, Bool.or_eq_true, beq_iff_eq] at hMissing
      rcases hMissing with hBad | hBad
      · exact hValid hBad
      · rw [hDead] at hBad
        cases hBad
    have hLt : s.g.nodes.length < (s.g.makeRaw kind [] 0 0 c).1.nodes.length := by
      rw [makeRaw_length]
      exact Nat.lt_succ_self _
    have hLive := (hMakes.fresh _ (Nat.le_refl _) hLt).alive
    exact ⟨hMakes, hLt, fun hValid => .inr (.inr ⟨hField.write_mem _ _, hValid, hLive⟩)⟩
  · rename_i hThere
    rw [run_pure_eq_some] at h
    obtain ⟨rfl, rfl⟩ := h
    rw [sinkMissing, Bool.or_eq_true, beq_iff_eq, not_or, Bool.not_eq_true] at hThere
    have hMem := hField.read_mem s'.jk
    exact ⟨makes_refl hTidy, hTidy.junk.constants _ hMem hThere.1,
      fun hValid => .inr (.inr ⟨hMem, hValid, hThere.2⟩)⟩

/-- Is there a sink for values of the type?  Tagged values and vectors have none. -/
def hasSink (type : RawType) : Bool :=
  [int.raw, long.raw, float.raw, double.raw, null.raw, ref.raw, bottom.raw].contains type

section Fields

theorem constField_constI : ConstField Junk.constI fun jk n => { jk with constI := n } := by
  constructor <;> simp +contextual [Junk.constants]

theorem constField_constL : ConstField Junk.constL fun jk n => { jk with constL := n } := by
  constructor <;> simp +contextual [Junk.constants]

theorem constField_constF : ConstField Junk.constF fun jk n => { jk with constF := n } := by
  constructor <;> simp +contextual [Junk.constants]

theorem constField_constD : ConstField Junk.constD fun jk n => { jk with constD := n } := by
  constructor <;> simp +contextual [Junk.constants]

theorem constField_constNull :
    ConstField Junk.constNull fun jk n => { jk with constNull := n } := by
  constructor <;> simp +contextual [Junk.constants]

end Fields

theorem dataSink_spec (hTidy : Tidy s) {type : RawType} {v : NodeId}
    (h : (dataSink type).run s = some (v, s')) :
    Makes s s' ∧ (v ≠ kInvalidNodeId → IsSink s' v) ∧
      (v = kInvalidNodeId → hasSink type = false ∨ kInvalidNodeId < s'.g.nodes.length) := by
  have hMade : ∀ {read write kind c}, ConstField read write →
      (constSink read write fun g => g.makeRaw kind [] 0 0 c).run s = some (v, s') →
      Makes s s' ∧ (v ≠ kInvalidNodeId → IsSink s' v) ∧
        (v = kInvalidNodeId → hasSink type = false ∨ kInvalidNodeId < s'.g.nodes.length) := by
    intro read write kind c hField hRun
    obtain ⟨hMakes, hLt, hSink⟩ := constSink_spec hField hTidy hRun
    exact ⟨hMakes, hSink, fun hEq => .inr (hEq ▸ hLt)⟩
  unfold dataSink at h
  split at h
  · exact hMade constField_constI h
  split at h
  · exact hMade constField_constL h
  split at h
  · exact hMade constField_constF h
  split at h
  · exact hMade constField_constD h
  split at h
  · exact hMade constField_constNull h
  rename_i hInt hLong hFloat hDouble hNull
  split at h
  · rw [run_pure_eq_some] at h
    obtain ⟨rfl, rfl⟩ := h
    exact ⟨makes_refl hTidy, fun _ => .inl rfl, fun hBad => absurd hBad (by decide)⟩
  rename_i hBottom
  rw [run_pure_eq_some] at h
  obtain ⟨rfl, rfl⟩ := h
  rw [not_or] at hNull
  have hNone : hasSink type = false := by
    simp [hasSink, hInt, hLong, hFloat, hDouble, hNull.1, hNull.2, hBottom]
  exact ⟨makes_refl hTidy, fun hBad => absurd rfl hBad, fun _ => .inl hNone⟩

/-- Regions over the start node are added; the ones there stay. -/
theorem growRegionSinks_spec {upTo missing : Nat} (hTidy : Tidy s)
    (h : (growRegionSinks upTo missing).run s = some ((), s')) : Makes s s' := by
  induction missing generalizing s with
  | zero =>
    rw [growRegionSinks, run_pure_eq_some] at h
    obtain ⟨-, rfl⟩ := h
    exact makes_refl hTidy
  | succ missing ih =>
    rw [growRegionSinks, run_bind_eq_some] at h
    obtain ⟨r, s₁, hMake, h⟩ := h
    rw [run_making] at hMake
    cases hMake
    rw [run_bind_eq_some] at h
    obtain ⟨_, s₂, hModify, h⟩ := h
    rw [run_modify] at hModify
    cases hModify
    have hMakes : Makes s { s with
        g := (s.g.make .region (replicate (upTo - missing) startNode) 0 0).1,
        jk := { s.jk with regionSinks := s.jk.regionSinks ++ [s.g.nodes.length] } } := by
      apply makes_make hTidy (fun a ha => eq_of_mem_replicate ha) (.inl rfl)
      · exact fun m hm => .inr hm
      · intro m hm
        rcases mem_append.mp hm with hOld | hNew
        · exact .inr hOld
        · exact .inl ⟨mem_singleton.mp hNew, rfl⟩
      · rintro m (hStart | hRegion | hConst)
        · exact .inl hStart
        · exact .inr (.inl (mem_append_left _ hRegion))
        · exact .inr (.inr hConst)
    exact hMakes.trans (ih hMakes.tidy h)

theorem regionSink_spec {preds : Nat} (hTidy : Tidy s) {v : NodeId}
    (h : (regionSink preds).run s = some (v, s')) : Makes s s' ∧ IsSink s' v := by
  unfold regionSink at h
  rw [run_bind_eq_some] at h
  obtain ⟨s₀, t₀, hGet, h⟩ := h
  cases hGet
  rw [run_bind_eq_some] at h
  obtain ⟨_, s₁, hGrow, h⟩ := h
  rw [run_bind_eq_some] at h
  obtain ⟨s₂, t₂, hGet, h⟩ := h
  cases hGet
  rw [run_pure_eq_some] at h
  obtain ⟨rfl, rfl⟩ := h
  refine ⟨growRegionSinks_spec hTidy hGrow, ?_⟩
  -- past the end of the list stands the start node
  rw [getD_eq_getElem?_getD]
  rcases hRead : s'.jk.regionSinks[max preds 2 - 2]? with _ | r
  · exact .inl rfl
  · exact .inr (.inl (mem_of_getElem? hRead))

end

/-! ## Moving the edges of one node -/

structure Moves (n : NodeId) (s s' : PassRun) : Prop where
  lt : n < s.g.nodes.length
  tidy : Tidy s'
  length : s.g.nodes.length ≤ s'.g.nodes.length
  node : ∀ m, m < s.g.nodes.length → m ≠ n → s'.g.node m = s.g.node m
  inputs : ∀ m, m < s.g.nodes.length → m ≠ n → s'.g.inputs m = s.g.inputs m
  tags : (s'.g.node n).tags = (s.g.node n).tags
  fresh : ∀ m, s.g.nodes.length ≤ m → m < s'.g.nodes.length → SinkNode s'.g m
  edges : ∀ a ∈ s'.g.inputs n, a ∈ s.g.inputs n ∨ IsSink s' a
  sinks : ∀ m, IsSink s m → IsSink s' m
  frames : s'.g.fsDesc = s.g.fsDesc ∧ s'.g.fsVobjs = s.g.fsVobjs
  counts : s'.b = s.b ∧ s'.t = s.t

section

variable {n : NodeId} {s s' s'' : PassRun}

theorem Makes.moves (h : Makes s s') (hn : n < s.g.nodes.length) : Moves n s s' where
  lt := hn
  tidy := h.tidy
  length := h.length
  node m hm _ := h.node m hm
  inputs m hm _ := h.inputs m hm
  tags := by rw [h.node n hn]
  fresh := h.fresh
  edges a ha := by
    rw [h.inputs n hn] at ha
    exact .inl ha
  sinks := h.sinks
  frames := h.frames
  counts := h.counts

theorem moves_refl (hTidy : Tidy s) (hn : n < s.g.nodes.length) : Moves n s s :=
  (makes_refl hTidy).moves hn

theorem Moves.trans (h : Moves n s s') (h' : Moves n s' s'') : Moves n s s'' where
  lt := h.lt
  tidy := h'.tidy
  length := Nat.le_trans h.length h'.length
  node m hm hne := by
    rw [h'.node m (Nat.lt_of_lt_of_le hm h.length) hne, h.node m hm hne]
  inputs m hm hne := by
    rw [h'.inputs m (Nat.lt_of_lt_of_le hm h.length) hne, h.inputs m hm hne]
  tags := h'.tags.trans h.tags
  fresh m hLe hLt := by
    have hne : m ≠ n := Nat.ne_of_gt (Nat.lt_of_lt_of_le h.lt hLe)
    by_cases hm : m < s'.g.nodes.length
    · exact (h.fresh m hLe hm).congr (h'.node m hm hne) (h'.inputs m hm hne)
    · exact h'.fresh m (Nat.le_of_not_lt hm) hLt
  edges a ha := by
    rcases h'.edges a ha with hOld | hSink
    · rcases h.edges a hOld with hOld | hSink
      · exact .inl hOld
      · exact .inr (h'.sinks a hSink)
    · exact .inr hSink
  sinks m hm := h'.sinks m (h.sinks m hm)
  frames := ⟨h'.frames.1.trans h.frames.1, h'.frames.2.trans h.frames.2⟩
  counts := ⟨h'.counts.1.trans h.counts.1, h'.counts.2.trans h.counts.2⟩

theorem moves_setInput (hTidy : Tidy s) (hn : n < s.g.nodes.length) (slot : Nat) {v : NodeId}
    (hv : IsSink s v) : Moves n s { s with g := s.g.setInput n slot v } := by
  have hNode : ∀ m, (s.g.setInput n slot v).node m = s.g.node m := setInput_node n slot v
  have hNodes : (s.g.setInput n slot v).nodes = s.g.nodes := setInput_nodes n slot v
  have hSinks : ∀ m, IsSink s m → IsSink { s with g := s.g.setInput n slot v } m := by
    intro m hm
    unfold IsSink at hm ⊢
    rw [hNode]
    exact hm
  constructor
  · exact hn
  · refine ⟨hTidy.ok.setInput _ _ _, hTidy.uses.setInput hTidy.ok _ _ _ (hv.lt hTidy), ?_, ?_⟩
    · rw [hNodes]
      exact hTidy.start
    constructor
    · intro m
      rw [hNodes]
      exact hTidy.junk.constants m
    · intro m
      rw [hNodes, hNode]
      exact hTidy.junk.regions m
  · exact Nat.le_of_eq (congrArg length hNodes.symm)
  · exact fun m _ _ => hNode m
  · intro m _ hne
    rw [setInput_inputs _ _ _ hTidy.ok, if_neg hne]
  · rw [hNode]
  · intro m hLe hLt
    rw [hNodes] at hLt
    exact absurd hLt (Nat.not_lt.mpr hLe)
  · intro a ha
    rw [setInput_inputs _ _ _ hTidy.ok, if_pos rfl] at ha
    rcases mem_or_eq_of_mem_set ha with hOld | rfl
    · exact .inl hOld
    · exact .inr (hSinks _ hv)
  · exact hSinks
  · simp only [Store.setInput, Store.removeFromUses]
    split_ifs <;> exact ⟨rfl, rfl⟩
  · exact ⟨rfl, rfl⟩

theorem moves_appendInput (hTidy : Tidy s) (hn : n < s.g.nodes.length) {v : NodeId}
    (hv : IsSink s v) (hNum : (s.g.node n).numInputs + 1 < 65536) :
    Moves n s { s with g := s.g.appendInput n v } := by
  have hLength : (s.g.appendInput n v).nodes.length = s.g.nodes.length :=
    appendInput_length n v
  have hTags : ∀ m, ((s.g.appendInput n v).node m).tags = (s.g.node m).tags := by
    intro m
    rw [appendInput_node]
    split
    · rename_i hm
      rw [hm.1]
      rfl
    · rfl
  have hSinks : ∀ m, IsSink s m → IsSink { s with g := s.g.appendInput n v } m := by
    intro m hm
    unfold IsSink at hm ⊢
    rw [isDead_of_tags (hTags m)]
    exact hm
  constructor
  · exact hn
  · refine ⟨hTidy.ok.appendInput _ _, hTidy.uses.appendInput hTidy.ok hn (hv.lt hTidy) hNum, ?_, ?_⟩
    · rw [hLength]
      exact hTidy.start
    constructor
    · intro m
      rw [hLength]
      exact hTidy.junk.constants m
    · intro m
      rw [hLength, isDead_of_tags (hTags m), kind_of_tags (hTags m)]
      exact hTidy.junk.regions m
  · exact Nat.le_of_eq hLength.symm
  · intro m _ hne
    rw [appendInput_node, if_neg fun h => hne h.1]
  · intro m _ hne
    rw [appendInput_inputs _ _ hTidy.ok hn, if_neg hne]
  · exact hTags n
  · intro m hLe hLt
    rw [hLength] at hLt
    exact absurd hLt (Nat.not_lt.mpr hLe)
  · intro a ha
    rw [appendInput_inputs _ _ hTidy.ok hn, if_pos rfl] at ha
    rcases mem_append.mp (mem_of_mem_take ha) with hOld | hNew
    · exact .inl hOld
    · rw [mem_singleton.mp hNew]
      exact .inr (hSinks v hv)
  · exact hSinks
  · simp only [appendInput]
    split_ifs <;> exact ⟨rfl, rfl⟩
  · exact ⟨rfl, rfl⟩

theorem Moves.kind (h : Moves n s s') : (s'.g.node n).kind = (s.g.node n).kind :=
  kind_of_tags h.tags

theorem Moves.flags (h : Moves n s s') : (s'.g.node n).flags = (s.g.node n).flags :=
  congrArg NodeImage.flags h.tags

theorem Moves.ltAfter (h : Moves n s s') : n < s'.g.nodes.length :=
  Nat.lt_of_lt_of_le h.lt h.length

/-- A phi with one value is padded before its edges move. -/
theorem junkEdges_pads (hTidy : Tidy s) (hn : n < s.g.nodes.length)
    (h : (junkEdges n).run s = some ((), s')) :
    ∃ s₁, Moves n s s₁ ∧ (junkSlots n (s₁.g.node n).numInputs 0).run s₁ = some ((), s') := by
  have hLoop : ∀ {s₁ : PassRun}, Moves n s s₁ →
      (do junkSlots n ((← graph).node n).numInputs 0 : PassM Unit).run s₁ = some ((), s') →
      ∃ s₁, Moves n s s₁ ∧ (junkSlots n (s₁.g.node n).numInputs 0).run s₁ = some ((), s') := by
    intro s₁ hMoves hRun
    rw [run_bind_graph] at hRun
    exact ⟨s₁, hMoves, hRun⟩
  unfold junkEdges at h
  rw [run_bind_graph] at h
  split at h
  · rename_i hPhi
    rw [run_bind_eq_some] at h
    obtain ⟨t, s₁, hType, h⟩ := h
    rw [run_typeOf] at hType
    obtain ⟨rfl, -⟩ := hType
    rw [run_bind_eq_some] at h
    obtain ⟨pad, s₂, hPad, h⟩ := h
    obtain ⟨hMakes, hIs, -⟩ := dataSink_spec hTidy hPad
    have hMoves := hMakes.moves hn
    split at h
    · rename_i hValid
      rw [run_bind_eq_some] at h
      obtain ⟨_, s₃, hAppend, h⟩ := h
      rw [run_onGraph] at hAppend
      cases hAppend
      refine hLoop (hMoves.trans ?_) h
      refine moves_appendInput hMakes.tidy hMoves.ltAfter (hIs hValid) ?_
      rw [hMakes.node n hn, hPhi.2]
      decide
    · exact hLoop hMoves h
  · exact hLoop (moves_refl hTidy hn) h

/-! ## The edges of a removed node -/

theorem killNode_node (g : Store) (hn : n < g.nodes.length) (m : NodeId) : (g.killNode n).node m =
      if m = n then
        { g.node n with flags := (g.node n).flags.set .dead, epoch := g.epoch + 1 }
      else g.node m := by
  rw [Store.killNode, if_pos hn, Store.node, getD_modify]
  by_cases hEq : m = n
  · rw [if_pos hEq, if_pos ⟨hEq, hn⟩]
    rfl
  · rw [if_neg hEq, if_neg fun h => hEq h.1]
    rfl

theorem killNode_length (g : Store) : (g.killNode n).nodes.length = g.nodes.length := by
  unfold killNode
  split_ifs
  · rw [length_modify]
  · rfl

/-- The live part of the graph is closed, and no other node in it refers to `n`. -/
structure Loose (n : NodeId) (s : PassRun) : Prop where
  notStart : n ≠ startNode
  closed : ∀ m a, s.g.Live m → a ∈ s.g.inputs m → s.g.Live a
  unread : ∀ m, s.g.Live m → n ∈ s.g.inputs m → m = n

theorem Tidy.lt (hTidy : Tidy s) {m : NodeId} (h : s.g.Live m) : m < s.g.nodes.length := by
  rcases h with rfl | ⟨hLt, -⟩
  · exact hTidy.start
  · exact hLt

theorem Moves.live_cases (h : Moves n s s') {m : NodeId} (hm : s'.g.Live m) :
    s.g.Live m ∨ ∀ a ∈ s'.g.inputs m, a = startNode := by
  rcases hm with hStart | ⟨hLt, hDead⟩
  · exact .inl (.inl hStart)
  by_cases hOld : m < s.g.nodes.length
  · refine .inl (.inr ⟨hOld, ?_⟩)
    by_cases hEq : m = n
    · rw [hEq, NodeRec.isDead, h.flags] at hDead
      rw [hEq]
      exact hDead
    · rw [← h.node m hOld hEq]
      exact hDead
  · exact .inr (h.fresh m (Nat.le_of_not_lt hOld) hLt).reads

theorem Moves.live (h : Moves n s s') {m : NodeId} (hm : s.g.Live m) : s'.g.Live m := by
  rcases hm with hStart | ⟨hLt, hDead⟩
  · exact .inl hStart
  refine .inr ⟨Nat.lt_of_lt_of_le hLt h.length, ?_⟩
  by_cases hEq : m = n
  · rw [hEq, NodeRec.isDead, h.flags]
    rw [hEq] at hDead
    exact hDead
  · rw [h.node m hLt hEq]
    exact hDead

theorem Loose.moves (hLoose : Loose n s) (hTidy : Tidy s) (h : Moves n s s') : Loose n s' := by
  refine ⟨hLoose.notStart, ?_, ?_⟩
  · intro m a hm ha
    rcases h.live_cases hm with hOld | hStart
    · by_cases hEq : m = n
      · rw [hEq] at ha hOld
        rcases h.edges a ha with hOldEdge | hSink
        · exact h.live (hLoose.closed n a hOld hOldEdge)
        · exact hSink.live h.tidy
      · rw [h.inputs m (hTidy.lt hOld) hEq] at ha
        exact h.live (hLoose.closed m a hOld ha)
    · exact .inl (hStart a ha)
  · intro m hm ha
    rcases h.live_cases hm with hOld | hStart
    · by_contra hEq
      rw [h.inputs m (hTidy.lt hOld) hEq] at ha
      exact hEq (hLoose.unread m hOld ha)
    · exact absurd (hStart n ha) hLoose.notStart

/-- Everything live but `n` is a part of its own. -/
theorem Loose.agreeOn (hLoose : Loose n s) (hTidy : Tidy s) {g' : Store}
    (hLength : s.g.nodes.length ≤ g'.nodes.length)
    (hNode : ∀ m, m < s.g.nodes.length → m ≠ n → g'.node m = s.g.node m)
    (hInputs : ∀ m, m < s.g.nodes.length → m ≠ n → g'.inputs m = s.g.inputs m) :
    Store.AgreeOn (fun m => s.g.Live m ∧ m ≠ n) s.g g' where
  lt _ h := hTidy.lt h.1
  length := hLength
  node m h := hNode m (hTidy.lt h.1) h.2
  inputs m h := hInputs m (hTidy.lt h.1) h.2
  closed := by
    intro m a hm ha
    refine ⟨hLoose.closed m a hm.1 ha, ?_⟩
    rintro rfl
    exact hm.2 (hLoose.unread m hm.1 ha)

/-- An edge of a tombstone that is where it has to be: on a sink, or on a value whose type
has none. -/
def Settled (s : PassRun) (a : NodeId) : Prop :=
  IsSink s a ∨ (s.g.Live a ∧ ∃ t, s.g.image.typeOf a = some t ∧ hasSink t = false)

theorem Settled.moves (hLoose : Loose n s) (hTidy : Tidy s) (h : Moves n s s') {a : NodeId}
    (hNe : a ≠ n) (ha : Settled s a) : Settled s' a := by
  rcases ha with hSink | ⟨hLive, t, hType, hNone⟩
  · exact .inl (h.sinks a hSink)
  · have hAgree := hLoose.agreeOn hTidy h.length h.node h.inputs
    exact .inr ⟨h.live hLive, t, hAgree.typeOf ⟨hLive, hNe⟩ hType, hNone⟩

end

end B2Compiler.Passes
