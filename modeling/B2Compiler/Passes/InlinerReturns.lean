import B2Compiler.Ir.TypeQuestions
import B2Compiler.Passes.Sinks

/-!
# Removals that come back

Pass code asks for the types of the edges it moves to sinks, and such a question may not
end.  In a graph in which no node reaches itself through questions every removal comes
back, and what it leaves is such a graph again: sinks ask nothing, so moving edges onto
them leads nowhere.
-/

namespace B2Compiler.Passes

open Ir List Nat Store Graph
open Relation (TransGen)

/-! ## Graphs with less to ask -/

/-- The type of such a node needs no other type. -/
def QuietKind (k : NodeKind) : Prop := k ≠ .bitCast ∧ k ≠ .phi

instance (k : NodeKind) : Decidable (QuietKind k) := inferInstanceAs (Decidable (_ ∧ _))

/-- No node reaches itself through questions about types. -/
def Answered (g : Store) : Prop := ∀ n, ¬ TransGen g.image.Asks n n

theorem asked_image (g : Store) (n : NodeId) : g.image.asked n = match (g.node n).kind with
      | .bitCast => (g.inputs n).take 1
      | .phi => (g.inputs n).tail
      | _ => [] := by
  unfold Image.asked
  by_cases hn : n < g.nodes.length
  · rw [node_image g hn]
    rfl
  · have hImage : g.image.node n = {} := by
      rw [Image.node, getD_eq_getElem?_getD, getElem?_image_nodes, if_neg hn]
      rfl
    rw [hImage, Store.node_of_le (Nat.le_of_not_lt hn)]

theorem asked_of_quiet {g : Store} {n : NodeId} (h : QuietKind (g.node n).kind) :
    g.image.asked n = [] := by
  rw [asked_image]
  split
  · rename_i hKind
    exact absurd hKind h.1
  · rename_i hKind
    exact absurd hKind h.2
  · rfl

theorem asked_congr {g g' : Store} {n : NodeId} (hKind : (g'.node n).kind = (g.node n).kind)
    (hInputs : g'.inputs n = g.inputs n) : g'.image.asked n = g.image.asked n := by
  rw [asked_image, asked_image, hKind, hInputs]

/-- A node of the graph that asks nothing. -/
def Hushed (g : Store) (n : NodeId) : Prop :=
  n < g.nodes.length ∧ QuietKind (g.node n).kind

structure Extends (g g' : Store) : Prop where
  ok : g'.Ok
  length : g.nodes.length ≤ g'.nodes.length
  kind : ∀ m, m < g.nodes.length → (g'.node m).kind = (g.node m).kind

/-- Nothing asks more than before, but for questions that lead nowhere. -/
structure Quieter (g g' : Store) : Prop extends Extends g g' where
  asks : ∀ a b, g'.image.Asks a b → g.image.Asks a b ∨ Hushed g' b

section Quieter

variable {g g' g'' : Store}

theorem quieter_refl (hOk : g.Ok) : Quieter g g where
  ok := hOk
  length := Nat.le_refl _
  kind _ _ := rfl
  asks _ _ h := .inl h

theorem Extends.trans (h : Extends g g') (h' : Extends g' g'') : Extends g g'' where
  ok := h'.ok
  length := Nat.le_trans h.length h'.length
  kind m hm := by
    rw [h'.kind m (Nat.lt_of_lt_of_le hm h.length), h.kind m hm]

theorem Extends.hushed (h : Extends g g') {n : NodeId} (hn : Hushed g n) : Hushed g' n :=
  ⟨Nat.lt_of_lt_of_le hn.1 h.length, by rw [h.kind n hn.1]; exact hn.2⟩

theorem Quieter.trans (h : Quieter g g') (h' : Quieter g' g'') : Quieter g g'' where
  toExtends := h.toExtends.trans h'.toExtends
  asks a b hab := by
    rcases h'.asks a b hab with hOld | hEnd
    · rcases h.asks a b hOld with hOld | hEnd
      · exact .inl hOld
      · exact .inr (h'.hushed hEnd)
    · exact .inr hEnd

/-- A cycle of questions never uses one that leads nowhere. -/
theorem Quieter.answered (h : Quieter g g') (hAnswered : Answered g) : Answered g' := by
  have hStep : ∀ {a b}, g'.image.Asks a b → g'.image.asked b ≠ [] → g.image.Asks a b :=
    fun hEdge hb => (h.asks _ _ hEdge).resolve_right fun hEnd => hb (asked_of_quiet hEnd.2)
  have hPath : ∀ {a b}, TransGen g'.image.Asks a b → g'.image.asked b ≠ [] →
      TransGen g.image.Asks a b := by
    intro a b hab
    induction hab with
    | single hEdge => exact fun hb => TransGen.single (hStep hEdge hb)
    | tail _ hEdge ih => exact fun hc => (ih (ne_nil_of_mem hEdge)).tail (hStep hEdge hc)
  intro n hCycle
  obtain ⟨m, hFirst, -⟩ := TransGen.head'_iff.mp hCycle
  exact hAnswered n (hPath hCycle (ne_nil_of_mem hFirst))

/-- The records stay and each list of inputs only gains what asks nothing. -/
theorem quieter_of_inputs (hOk : g'.Ok) (hLength : g'.nodes.length = g.nodes.length)
    (hKind : ∀ m, (g'.node m).kind = (g.node m).kind)
    (hMem : ∀ n a, g'.image.Asks n a → g.image.Asks n a ∨ Hushed g a) : Quieter g g' where
  ok := hOk
  length := Nat.le_of_eq hLength.symm
  kind m _ := hKind m
  asks a b hab := by
    rcases hMem a b hab with hOld | hEnd
    · exact .inl hOld
    · exact .inr ⟨hLength ▸ hEnd.1, by rw [hKind]; exact hEnd.2⟩

theorem quieter_makeRaw (hOk : g.Ok) {kind : NodeKind} (hQuiet : QuietKind kind)
    (ins : List NodeId) (p p2 : BitVec 32) (c : BitVec 64) :
    Quieter g (g.makeRaw kind ins p p2 c).1 := by
  have hOld : ∀ n, n ≠ g.nodes.length →
      (g.makeRaw kind ins p p2 c).1.image.asked n = g.image.asked n := by
    intro n hn
    apply asked_congr
    · rw [makeRaw_node, if_neg hn]
    · rw [makeRaw_inputs _ _ _ _ _ hOk, if_neg hn]
  have hNew : (g.makeRaw kind ins p p2 c).1.image.asked g.nodes.length = [] := by
    apply asked_of_quiet
    rw [makeRaw_node, if_pos rfl]
    exact hQuiet
  refine ⟨⟨hOk.makeRaw _ _ _ _ _, ?_, ?_⟩, ?_⟩
  · rw [makeRaw_length]
    exact le_succ _
  · intro m hm
    rw [makeRaw_node, if_neg (Nat.ne_of_lt hm)]
  intro a b hab
  by_cases hEq : a = g.nodes.length
  · rw [hEq, Image.Asks, hNew] at hab
    cases hab
  · rw [Image.Asks, hOld a hEq] at hab
    exact .inl hab

theorem quieter_setInput (hOk : g.Ok) (n : NodeId) (slot : Nat) {v : NodeId}
    (hv : Hushed g v) : Quieter g (g.setInput n slot v) := by
  have hKind : ∀ m, ((g.setInput n slot v).node m).kind = (g.node m).kind := by
    intro m
    rw [setInput_node]
  have hOther : ∀ m, m ≠ n → (g.setInput n slot v).image.asked m = g.image.asked m := by
    intro m hm
    exact asked_congr (hKind m) (by rw [setInput_inputs _ _ _ hOk, if_neg hm])
  have hHere : (g.setInput n slot v).image.asked n = match (g.node n).kind with
      | .bitCast => ((g.inputs n).set slot v).take 1
      | .phi => ((g.inputs n).set slot v).tail
      | _ => [] := by
    rw [asked_image, hKind, setInput_inputs _ _ _ hOk, if_pos rfl]
  apply quieter_of_inputs (hOk.setInput _ _ _) (congrArg length (setInput_nodes n slot v)) hKind
  intro m a ha
  by_cases hEq : m = n
  · subst hEq
    unfold Image.Asks at ha ⊢
    rw [hHere] at ha
    rw [asked_image]
    split at ha
    · rcases hIns : g.inputs m with _ | ⟨x, xs⟩
      · rw [hIns] at ha
        cases ha
      rw [hIns] at ha
      cases slot with
      | zero =>
        rw [mem_singleton.mp ha]
        exact .inr hv
      | succ slot => exact .inl ha
    · rcases hIns : g.inputs m with _ | ⟨x, xs⟩
      · rw [hIns] at ha
        cases ha
      rw [hIns] at ha
      cases slot with
      | zero => exact .inl ha
      | succ slot =>
        rcases mem_or_eq_of_mem_set ha with hOld | rfl
        · exact .inl hOld
        · exact .inr hv
    · cases ha
  · rw [Image.Asks, hOther m hEq] at ha
    exact .inl ha

theorem quieter_appendInput (hOk : g.Ok) {n v : NodeId} (hn : n < g.nodes.length)
    (hv : Hushed g v) (hKindNe : (g.node n).kind ≠ .bitCast) :
    Quieter g (g.appendInput n v) := by
  have hKind : ∀ m, ((g.appendInput n v).node m).kind = (g.node m).kind := by
    intro m
    rw [appendInput_node]
    split
    · rename_i hm
      rw [hm.1]
    · rfl
  apply quieter_of_inputs (hOk.appendInput _ _) (appendInput_length n v) hKind
  intro m a ha
  by_cases hEq : m = n
  · subst hEq
    unfold Image.Asks at ha ⊢
    rw [asked_image, hKind, appendInput_inputs _ _ hOk hn, if_pos rfl] at ha
    rw [asked_image]
    split at ha
    · rename_i hBitCast
      exact absurd hBitCast hKindNe
    · have hTake : ∀ (l : List NodeId) k, a ∈ ((l ++ [v]).take k).tail → a ∈ l.tail ∨ a = v := by
        intro l k hk
        cases l with
        | nil =>
          rw [nil_append] at hk
          rcases k with _ | k
          · cases hk
          · rw [take_succ_cons, tail_cons, take_nil] at hk
            cases hk
        | cons r xs =>
          rcases k with _ | k
          · cases hk
          · exact (mem_append.mp (mem_of_mem_take hk)).imp_right mem_singleton.mp
      rcases hTake _ _ ha with hOld | rfl
      · exact .inl hOld
      · exact .inr hv
    · cases ha
  · have hSame : (g.appendInput n v).image.asked m = g.image.asked m :=
      asked_congr (hKind m) (by rw [appendInput_inputs _ _ hOk hn, if_neg hEq])
    rw [Image.Asks, hSame] at ha
    exact .inl ha

end Quieter

theorem quieter_killNode {g : Store} (hOk : g.Ok) (n : NodeId) : Quieter g (g.killNode n) := by
  have hSame := sameEdges_killNode (g := g) n
  have hKind : ∀ m, ((g.killNode n).node m).kind = (g.node m).kind := by
    intro m
    by_cases hn : n < g.nodes.length
    · rw [killNode_node g hn]
      split
      · rename_i hm
        rw [hm]
      · rfl
    · rw [killNode, if_neg hn]
  have hAsked : ∀ m, (g.killNode n).image.asked m = g.image.asked m :=
    fun m => asked_congr (hKind m) (hSame.inputs m)
  apply quieter_of_inputs (hSame.ok hOk) hSame.length hKind
  intro m a ha
  rw [Image.Asks, hAsked] at ha
  exact .inl ha

/-! ## Runs of pass code that come back -/

/-- The sinks a run holds, except for the regions. -/
def Junk.singles (jk : Junk) : List NodeId :=
  [jk.ifSink, jk.switchSink, jk.callSink, jk.fsSink, jk.constI, jk.constL, jk.constF, jk.constD,
    jk.constNull]

structure Anchored (s : PassRun) : Prop where
  ok : s.g.Ok
  start : Hushed s.g startNode
  singles : ∀ n ∈ s.jk.singles, n ≠ kInvalidNodeId → Hushed s.g n
  regions : ∀ n ∈ s.jk.regionSinks, Hushed s.g n

/-- Besides, every question ends. -/
structure Calm (s : PassRun) : Prop extends Anchored s where
  answered : Answered s.g

/-- Moving on to a graph that extends this one, with sinks that were there or ask
nothing. -/
theorem Anchored.step {s : PassRun} (h : Anchored s) {g : Store} (hExtends : Extends s.g g)
    {jk : Junk} (hSingles : ∀ n ∈ jk.singles, n ∈ s.jk.singles ∨ Hushed g n)
    (hRegions : ∀ n ∈ jk.regionSinks, n ∈ s.jk.regionSinks ∨ Hushed g n) (t : PassTelemetry)
    (b : Budget) : Anchored { g, t, b, jk } where
  ok := hExtends.ok
  start := hExtends.hushed h.start
  singles n hn hValid := by
    rcases hSingles n hn with hOld | hNew
    · exact hExtends.hushed (h.singles n hOld hValid)
    · exact hNew
  regions n hn := by
    rcases hRegions n hn with hOld | hNew
    · exact hExtends.hushed (h.regions n hOld)
    · exact hNew

theorem Calm.step {s : PassRun} (h : Calm s) {g : Store} (hQuieter : Quieter s.g g)
    {jk : Junk} (hSingles : ∀ n ∈ jk.singles, n ∈ s.jk.singles ∨ Hushed g n)
    (hRegions : ∀ n ∈ jk.regionSinks, n ∈ s.jk.regionSinks ∨ Hushed g n) (t : PassTelemetry)
    (b : Budget) : Calm { g, t, b, jk } where
  toAnchored := h.toAnchored.step hQuieter.toExtends hSingles hRegions t b
  answered := hQuieter.answered h.answered

theorem Calm.onGraph {s : PassRun} (h : Calm s) {g : Store} (hQuieter : Quieter s.g g) :
    Calm { s with g } :=
  h.step hQuieter (fun _ => .inl) (fun _ => .inl) s.t s.b

/-- The code comes back from `s`, and the graph it leaves is calm. -/
def Comes {α : Type} (x : PassM α) (s : PassRun) (P : α → PassRun → Prop) : Prop :=
  ∃ a s', x.run s = some (a, s') ∧ Calm s' ∧ Quieter s.g s'.g ∧ P a s'

section Comes

variable {α β : Type} {s : PassRun}

theorem comes_bind {x : PassM α} {f : α → PassM β} {P : α → PassRun → Prop}
    {Q : β → PassRun → Prop} (hx : Comes x s P)
    (hf : ∀ a s', Calm s' → Quieter s.g s'.g → P a s' → Comes (f a) s' Q) :
    Comes (x >>= f) s Q := by
  obtain ⟨a, s₁, hRun, hCalm, hQuieter, hP⟩ := hx
  obtain ⟨b, s₂, hRun', hCalm', hQuieter', hQ⟩ := hf a s₁ hCalm hQuieter hP
  exact ⟨b, s₂, run_bind_eq_some.mpr ⟨a, s₁, hRun, hRun'⟩, hCalm', hQuieter.trans hQuieter', hQ⟩

section

variable (hCalm : Calm s)
include hCalm

theorem comes_pure {a : α} {P : α → PassRun → Prop} (hP : P a s) : Comes (pure a) s P :=
  ⟨a, s, rfl, hCalm, quieter_refl hCalm.ok, hP⟩

theorem comes_graph : Comes graph s fun g s' => g = s.g ∧ s' = s :=
  ⟨s.g, s, rfl, hCalm, quieter_refl hCalm.ok, rfl, rfl⟩

theorem comes_get : Comes get s fun r s' => r = s ∧ s' = s :=
  ⟨s, s, rfl, hCalm, quieter_refl hCalm.ok, rfl, rfl⟩

theorem comes_onGraph {f : Store → Store} (hQuieter : Quieter s.g (f s.g)) :
    Comes (onGraph f) s fun _ s' => s' = { s with g := f s.g } :=
  ⟨(), _, rfl, hCalm.onGraph hQuieter, hQuieter, rfl⟩

theorem comes_making {f : Store → Store × NodeId}
    (hQuieter : Quieter s.g (f s.g).1) (hHushed : Hushed (f s.g).1 (f s.g).2) :
    Comes (making f) s fun n s' => Hushed s'.g n ∧ s'.jk = s.jk :=
  ⟨(f s.g).2, _, rfl, hCalm.onGraph hQuieter, hQuieter, hHushed, rfl⟩

theorem comes_remember {f : Junk → Junk}
    (hSingles : ∀ n ∈ (f s.jk).singles, n ∈ s.jk.singles ∨ Hushed s.g n)
    (hRegions : ∀ n ∈ (f s.jk).regionSinks, n ∈ s.jk.regionSinks ∨ Hushed s.g n) :
    Comes (modify fun s => { s with jk := f s.jk } : PassM Unit) s fun _ s' => s'.g = s.g :=
  ⟨(), _, rfl, hCalm.step (quieter_refl hCalm.ok) hSingles hRegions s.t s.b,
    quieter_refl hCalm.ok, rfl⟩

theorem comes_typeOf (n : NodeId) : Comes (typeOf n) s fun _ s' => s' = s := by
  obtain ⟨t, ht⟩ := Option.isSome_iff_exists.mp
    (Image.isSome_typeOf (n := n) fun v _ => hCalm.answered v)
  exact ⟨t, s, run_typeOf.mpr ⟨rfl, ht⟩, hCalm, quieter_refl hCalm.ok, rfl⟩

theorem comes_charge : Comes charge s fun _ s' => s'.g = s.g ∧ s'.jk = s.jk := by
  have hKeep : ∀ b : Budget, Calm { s with b } :=
    fun b => hCalm.step (quieter_refl hCalm.ok) (fun _ => .inl) (fun _ => .inl) s.t b
  by_cases hOut : s.b.exceeded = true ∨ s.b.limit ≤ s.b.used
  · refine ⟨false, { s with b := { s.b with exceeded := true } }, ?_, hKeep _,
      quieter_refl hCalm.ok, rfl, rfl⟩
    unfold charge
    rw [run_bind_eq_some]
    refine ⟨s, s, rfl, ?_⟩
    rw [if_pos hOut]
    rfl
  · refine ⟨true, { s with b := { s.b with used := s.b.used + 1 } }, ?_, hKeep _,
      quieter_refl hCalm.ok, rfl, rfl⟩
    unfold charge
    rw [run_bind_eq_some]
    refine ⟨s, s, rfl, ?_⟩
    rw [if_neg hOut]
    rfl

end

/-! ## Choosing a sink -/

theorem hushed_makeRaw {g : Store} {kind : NodeKind} (hQuiet : QuietKind kind)
    (ins : List NodeId) (p p2 : BitVec 32) (c : BitVec 64) :
    Hushed (g.makeRaw kind ins p p2 c).1 (g.makeRaw kind ins p p2 c).2 := by
  constructor
  · rw [makeRaw_length]
    exact lt_succ_self _
  have hNode : ((g.makeRaw kind ins p p2 c).1.node (g.makeRaw kind ins p p2 c).2).kind =
      kind := by
    rw [makeRaw_node]
    exact congrArg NodeRec.kind (if_pos rfl)
  rw [hNode]
  exact hQuiet

theorem comes_makeRaw (hCalm : Calm s) {kind : NodeKind} (hQuiet : QuietKind kind)
    (ins : List NodeId) (p p2 : BitVec 32) (c : BitVec 64) :
    Comes (making fun g => g.makeRaw kind ins p p2 c) s
      fun n s' => Hushed s'.g n ∧ s'.jk = s.jk :=
  comes_making hCalm (quieter_makeRaw hCalm.ok hQuiet _ _ _ _) (hushed_makeRaw hQuiet _ _ _ _)

/-- What a choice of a sink answers: nothing, or a node that asks nothing. -/
def SinkOrNone (n : NodeId) (s : PassRun) : Prop := n ≠ kInvalidNodeId → Hushed s.g n

structure SinkField (read : Junk → NodeId) (write : Junk → NodeId → Junk) : Prop where
  read_mem : ∀ jk, read jk ∈ jk.singles
  write_mem : ∀ jk n m, m ∈ (write jk n).singles → m ∈ jk.singles ∨ m = n
  regions : ∀ jk n, (write jk n).regionSinks = jk.regionSinks

section

variable {read : Junk → NodeId} {write : Junk → NodeId → Junk} (hField : SinkField read write)
  (hCalm : Calm s)
include hField hCalm

theorem SinkField.there : Comes (pure (read s.jk)) s SinkOrNone :=
  comes_pure hCalm fun hValid => hCalm.singles _ (hField.read_mem _) hValid

/-- A sink that was made is remembered and answered. -/
theorem SinkField.keep {n : NodeId} (hHushed : Hushed s.g n) :
    Comes (do modify fun s => { s with jk := write s.jk n }; return n) s SinkOrNone := by
  refine comes_bind (comes_remember hCalm (f := fun jk => write jk n) ?_ ?_) ?_
  · intro m hm
    rcases hField.write_mem _ _ _ hm with hOld | rfl
    · exact .inl hOld
    · exact .inr hHushed
  · intro m hm
    rw [hField.regions] at hm
    exact .inl hm
  · intro _ s' hCalm' _ hSame
    exact comes_pure hCalm' fun _ => hSame ▸ hHushed

theorem comes_constSink {kind : NodeKind} (hQuiet : QuietKind kind) (c : BitVec 64) :
    Comes (constSink read write fun g => g.makeRaw kind [] 0 0 c) s SinkOrNone := by
  refine comes_bind (comes_get hCalm) ?_
  rintro r s₁ hCalm₁ - ⟨rfl, rfl⟩
  split
  · refine comes_bind (comes_makeRaw hCalm₁ hQuiet _ _ _ _) ?_
    rintro n s₂ hCalm₂ - ⟨hHushed, -⟩
    exact hField.keep hCalm₂ hHushed
  · exact hField.there hCalm₁

end

theorem comes_dataSink (hCalm : Calm s) (type : RawType) : Comes (dataSink type) s SinkOrNone := by
  unfold dataSink
  iterate 5
    split
    · refine comes_constSink ?_ hCalm (by decide) _
      constructor <;> simp +contextual [Junk.singles, or_imp]
  split
  · exact comes_pure hCalm fun _ => hCalm.start
  · exact comes_pure hCalm fun hBad => absurd rfl hBad

theorem comes_makeFsSink (hCalm : Calm s) :
    Comes makeFsSink s fun n s' => Hushed s'.g n ∧ s'.jk = s.jk := by
  have hQuiet : QuietKind .frameState := by decide
  have hDesc := sameEdges_addFrameStateDesc (g := s.g) 0 0 kInvalidFrameState []
  have hQuieter : Quieter s.g (s.g.addFrameStateDesc 0 0 kInvalidFrameState []).1 := by
    have hAsked : ∀ m, (s.g.addFrameStateDesc 0 0 kInvalidFrameState []).1.image.asked m =
        s.g.image.asked m := fun m => asked_congr rfl (hDesc.inputs m)
    apply quieter_of_inputs (hDesc.ok hCalm.ok) hDesc.length (fun _ => rfl)
    intro m a ha
    rw [Image.Asks, hAsked] at ha
    exact .inl ha
  exact comes_making hCalm
    (hQuieter.trans (quieter_makeRaw hQuieter.ok hQuiet _ _ _ _)) (hushed_makeRaw hQuiet _ _ _ _)

theorem sinkField_fsSink : SinkField Junk.fsSink fun jk n => { jk with fsSink := n } := by
  constructor <;> simp +contextual [Junk.singles, or_imp]

theorem comes_fsSinkGet (hCalm : Calm s) : Comes fsSinkGet s SinkOrNone := by
  refine comes_bind (comes_get hCalm) ?_
  rintro r s₁ hCalm₁ - ⟨rfl, rfl⟩
  split
  · refine comes_bind (comes_makeFsSink hCalm₁) ?_
    rintro n s₂ hCalm₂ - ⟨hHushed, -⟩
    exact sinkField_fsSink.keep hCalm₂ hHushed
  · exact sinkField_fsSink.there hCalm₁

theorem sinkField_ifSink : SinkField Junk.ifSink fun jk n => { jk with ifSink := n } := by
  constructor <;> simp +contextual [Junk.singles, or_imp]

theorem sinkField_switchSink :
    SinkField Junk.switchSink fun jk n => { jk with switchSink := n } := by
  constructor <;> simp +contextual [Junk.singles, or_imp]

theorem sinkField_callSink : SinkField Junk.callSink fun jk n => { jk with callSink := n } := by
  constructor <;> simp +contextual [Junk.singles, or_imp]

variable (hCalm : Calm s)
include hCalm

theorem comes_branchSink {kind : NodeKind} (hQuiet : QuietKind kind)
    {read : Junk → NodeId} {write : Junk → NodeId → Junk} (hField : SinkField read write) :
    Comes (do
      let c ← making fun g => g.constantI 0
      let n ← making fun g => g.make kind [startNode, c] 0 0
      modify fun s => { s with jk := write s.jk n }
      return n) s SinkOrNone := by
  refine comes_bind (comes_makeRaw hCalm (show QuietKind .constantI by decide) _ _ _ _) ?_
  intro c s₁ hCalm₁ _ _
  refine comes_bind (comes_makeRaw hCalm₁ hQuiet _ _ _ _) ?_
  rintro n s₂ hCalm₂ - ⟨hHushed, -⟩
  exact hField.keep hCalm₂ hHushed

theorem comes_callSink : Comes (do
      let fs ← makeFsSink
      let n ← making fun g =>
        g.make .callStatic [startNode, startNode] 0 IRType.bottom.toTag
      onGraph fun g => g.appendInput n fs
      modify fun s => { s with jk := { s.jk with callSink := n } }
      return n) s SinkOrNone := by
  refine comes_bind (comes_makeFsSink hCalm) ?_
  rintro fs s₁ hCalm₁ - ⟨hFs, -⟩
  refine comes_bind (comes_makeRaw hCalm₁ (show QuietKind .callStatic by decide) _ _ _ _) ?_
  rintro n s₂ hCalm₂ hQuieter ⟨hHushed, -⟩
  have hAppend : Quieter s₂.g (s₂.g.appendInput n fs) :=
    quieter_appendInput hCalm₂.ok hHushed.1 (hQuieter.hushed hFs) hHushed.2.1
  refine comes_bind (comes_onGraph hCalm₂ hAppend) ?_
  rintro - s₃ hCalm₃ - rfl
  exact sinkField_callSink.keep hCalm₃ (hAppend.hushed hHushed)

theorem comes_parentSink (kind : NodeKind) : Comes (parentSink kind) s SinkOrNone := by
  refine comes_bind (comes_get hCalm) ?_
  rintro r s₁ hCalm₁ - ⟨rfl, rfl⟩
  have hIf : ∀ {x : PassM NodeId}, Comes x s₁ SinkOrNone → Comes (if
      sinkMissing s₁.g s₁.jk.ifSink = true then x else pure s₁.jk.ifSink) s₁ SinkOrNone := by
    intro x hx
    split
    · exact hx
    · exact sinkField_ifSink.there hCalm₁
  have hSwitch : ∀ {x : PassM NodeId}, Comes x s₁ SinkOrNone → Comes (if
      sinkMissing s₁.g s₁.jk.switchSink = true then x else pure s₁.jk.switchSink) s₁
        SinkOrNone := by
    intro x hx
    split
    · exact hx
    · exact sinkField_switchSink.there hCalm₁
  split
  · exact hIf (comes_branchSink hCalm₁ (by decide) sinkField_ifSink)
  · exact hIf (comes_branchSink hCalm₁ (by decide) sinkField_ifSink)
  · exact hSwitch (comes_branchSink hCalm₁ (by decide) sinkField_switchSink)
  · exact hSwitch (comes_branchSink hCalm₁ (by decide) sinkField_switchSink)
  · split
    · exact comes_callSink hCalm₁
    · exact sinkField_callSink.there hCalm₁
  · exact comes_pure hCalm₁ fun _ => hCalm₁.start

theorem comes_growRegionSinks (upTo missing : Nat) :
    Comes (growRegionSinks upTo missing) s fun _ _ => True := by
  induction missing generalizing s with
  | zero => exact comes_pure hCalm trivial
  | succ missing ih =>
    refine comes_bind (comes_makeRaw hCalm (show QuietKind .region by decide) _ _ _ _) ?_
    rintro n s₁ hCalm₁ - ⟨hHushed, -⟩
    refine comes_bind (comes_remember hCalm₁
      (f := fun jk => { jk with regionSinks := jk.regionSinks ++ [n] }) ?_ ?_) ?_
    · exact fun m hm => .inl hm
    · intro m hm
      rcases mem_append.mp hm with hOld | hNew
      · exact .inl hOld
      · rw [mem_singleton.mp hNew]
        exact .inr hHushed
    · intro _ s₂ hCalm₂ _ _
      exact ih hCalm₂

theorem comes_regionSink (preds : Nat) : Comes (regionSink preds) s SinkOrNone := by
  refine comes_bind (comes_get hCalm) ?_
  rintro r s₁ hCalm₁ - ⟨rfl, rfl⟩
  refine comes_bind (comes_growRegionSinks hCalm₁ _ _) ?_
  intro _ s₂ hCalm₂ _ _
  refine comes_bind (comes_get hCalm₂) ?_
  rintro r s₃ hCalm₃ - ⟨rfl, rfl⟩
  refine comes_pure hCalm₃ fun _ => ?_
  rw [getD_eq_getElem?_getD]
  rcases hRead : s₃.jk.regionSinks[max preds 2 - 2]? with _ | n
  · exact hCalm₃.start
  · exact hCalm₃.regions n (mem_of_getElem? hRead)

theorem comes_junkForSlot (n : NodeId) (slot : Nat) : Comes (junkForSlot n slot) s SinkOrNone := by
  have hTyped : Comes (do dataSink (← typeOf (s.g.input n slot)) : PassM NodeId) s
      SinkOrNone := by
    refine comes_bind (comes_typeOf hCalm _) ?_
    rintro t s₁ hCalm₁ - rfl
    exact comes_dataSink hCalm₁ t
  have hStart : Comes (pure startNode : PassM NodeId) s SinkOrNone :=
    comes_pure hCalm fun _ => hCalm.start
  refine comes_bind (comes_graph hCalm) ?_
  rintro g s₁ hCalm₁ - ⟨rfl, rfl⟩
  dsimp only
  split
  · exact comes_pure hCalm₁ fun hBad => absurd rfl hBad
  split
  · exact comes_regionSink hCalm₁ _
  split
  · exact hStart
  · exact hStart
  · exact comes_parentSink hCalm₁ _
  · exact comes_fsSinkGet hCalm₁
  · exact hTyped
  · exact hTyped

theorem comes_move (n : NodeId) (slot : Nat) {sink : NodeId}
    (hSink : SinkOrNone sink s) (hValid : sink ≠ kInvalidNodeId) :
    Comes (onGraph fun g => g.setInput n slot sink) s fun _ _ => True := by
  have hQuieter := quieter_setInput hCalm.ok n slot (hSink hValid)
  exact ⟨(), _, rfl, hCalm.onGraph hQuieter, hQuieter, trivial⟩

theorem comes_junkSlots (n : NodeId) (left slot : Nat) :
    Comes (junkSlots n left slot) s fun _ _ => True := by
  induction left generalizing s slot with
  | zero => exact comes_pure hCalm trivial
  | succ left ih =>
    refine comes_bind (comes_graph hCalm) ?_
    rintro g s₁ hCalm₁ - ⟨rfl, rfl⟩
    dsimp only
    split
    · refine comes_bind (comes_junkForSlot hCalm₁ n slot) ?_
      intro sink s₂ hCalm₂ _ hSink
      split
      · rename_i hMove
        refine comes_bind (comes_move hCalm₂ n slot hSink hMove.1) ?_
        intro _ s₃ hCalm₃ _ _
        exact ih hCalm₃ _
      · exact ih hCalm₂ _
    · exact ih hCalm₁ _

theorem comes_junkEdges (n : NodeId) : Comes (junkEdges n) s fun _ _ => True := by
  have hLoop : ∀ {s₁ : PassRun}, Calm s₁ →
      Comes (do junkSlots n ((← graph).node n).numInputs 0 : PassM Unit) s₁ fun _ _ => True := by
    intro s₁ hCalm₁
    refine comes_bind (comes_graph hCalm₁) ?_
    rintro g s₂ hCalm₂ - ⟨rfl, rfl⟩
    exact comes_junkSlots hCalm₂ n _ _
  refine comes_bind (comes_graph hCalm) ?_
  rintro g s₁ hCalm₁ - ⟨rfl, rfl⟩
  dsimp only
  split
  · rename_i hPhi
    refine comes_bind (comes_typeOf hCalm₁ _) ?_
    rintro t s₂ hCalm₂ - rfl
    refine comes_bind (comes_dataSink hCalm₂ _) ?_
    intro pad s₃ hCalm₃ hQuieter hPad
    split
    · rename_i hValid
      have hn : n < s₂.g.nodes.length := by
        by_contra hOut
        rw [Store.node_of_le (Nat.le_of_not_lt hOut)] at hPhi
        cases hPhi.1
      have hKind : (s₃.g.node n).kind ≠ .bitCast := by
        rw [hQuieter.kind n hn, hPhi.1]
        decide
      have hAppend : Quieter s₃.g (s₃.g.appendInput n pad) :=
        quieter_appendInput hCalm₃.ok (Nat.lt_of_lt_of_le hn hQuieter.length) (hPad hValid) hKind
      refine comes_bind (comes_onGraph hCalm₃ hAppend) ?_
      rintro - s₄ hCalm₄ - -
      exact hLoop hCalm₄
    · exact hLoop hCalm₃
  · exact hLoop hCalm₁

theorem comes_junkReferencers (n : NodeId) (uses : List Use) :
    Comes (junkReferencers n uses) s fun _ _ => True := by
  induction uses generalizing s with
  | nil => exact comes_pure hCalm trivial
  | cons u rest ih =>
    refine comes_bind (comes_graph hCalm) ?_
    rintro g s₁ hCalm₁ - ⟨rfl, rfl⟩
    dsimp only
    split
    · refine comes_bind (comes_junkForSlot hCalm₁ u.user u.slot) ?_
      intro sink s₂ hCalm₂ _ hSink
      split
      · rename_i hValid
        refine comes_bind (comes_move hCalm₂ u.user u.slot hSink hValid) ?_
        intro _ s₃ hCalm₃ _ _
        exact ih hCalm₃
      · exact ih hCalm₂
    · exact ih hCalm₁

/-- The removal of a node comes back, whether it removes the node or refuses. -/
theorem comes_kill (n : NodeId) : Comes (kill n) s fun _ _ => True := by
  refine comes_bind (comes_graph hCalm) ?_
  rintro g s₁ hCalm₁ - ⟨rfl, rfl⟩
  split
  · exact comes_pure hCalm₁ trivial
  refine comes_bind (comes_charge hCalm₁) ?_
  rintro charged s₂ hCalm₂ - -
  split
  · exact comes_pure hCalm₂ trivial
  split
  · exact comes_pure hCalm₂ trivial
  refine comes_bind (comes_junkReferencers hCalm₂ n _) ?_
  intro _ s₃ hCalm₃ _ _
  refine comes_bind (comes_junkEdges hCalm₃ n) ?_
  intro _ s₄ hCalm₄ _ _
  refine comes_bind (comes_onGraph hCalm₄ (quieter_killNode hCalm₄.ok n)) ?_
  rintro - s₅ hCalm₅ - -
  have hCount : Comes (modify fun s => { s with t := { s.t with removals := s.t.removals + 1 } } :
      PassM Unit) s₅ fun _ _ => True :=
    ⟨(), _, rfl, hCalm₅.step (quieter_refl hCalm₅.ok) (fun _ => .inl) (fun _ => .inl) _ _,
      quieter_refl hCalm₅.ok, trivial⟩
  refine comes_bind hCount ?_
  intro _ s₆ hCalm₆ _ _
  exact comes_pure hCalm₆ trivial

end Comes

end B2Compiler.Passes
