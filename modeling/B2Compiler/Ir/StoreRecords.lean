import B2Compiler.Ir.StoreSlices

/-!
# What a call does to the node records

Of the records, the log and the epoch a call changes little: it appends a blank record,
changes one record apart from its tags, leaves a tombstone, or advances the counter.
`RecordStep` says which, and every invariant of records, log and epoch follows from it.
-/

namespace B2Compiler.Ir

open BitVec Nat

namespace Store

variable {g : Store}

/-- A change of a record that leaves its kind, payloads and epoch tag alone and takes no
flag away. -/
structure KeepsTags (nd nd' : NodeRec) : Prop where
  kind : nd'.kind = nd.kind
  payload : nd'.payload = nd.payload
  payload2 : nd'.payload2 = nd.payload2
  reserved : nd'.reserved = nd.reserved
  epoch : nd'.epoch = nd.epoch
  flags : ∀ f, nd.flags.has f = true → nd'.flags.has f = true
  numInputs : nd.numInputs < 65536 → nd'.numInputs < 65536

/-- The tombstone a replaced node leaves. -/
def NodeRec.replacedAt (e : BitVec 32) (nd : NodeRec) : NodeRec :=
  { nd with flags := (nd.flags.set .replaced).set .dead, epoch := e }

/-- The tombstone a killed node leaves. -/
def NodeRec.killedAt (e : BitVec 32) (nd : NodeRec) : NodeRec :=
  { nd with flags := nd.flags.set .dead, epoch := e }

inductive RecordStep (g h : Store) : Call → Prop where
  | keep (c : Call) (hNodes : h.nodes = g.nodes) (hLog : h.replacements = g.replacements)
      (hEpoch : h.epoch = g.epoch) : RecordStep g h c
  | append (c : Call) (nd : NodeRec) (hNodes : h.nodes = g.nodes ++ [nd])
      (hReserved : nd.reserved = 0) (hTag : nd.epoch = 0) (hNum : nd.numInputs < 65536)
      (hLog : h.replacements = g.replacements) (hEpoch : h.epoch = g.epoch) : RecordStep g h c
  | change (c : Call) (n : NodeId) (f : NodeRec → NodeRec)
      (hNodes : h.nodes = g.nodes.modify n f) (hf : ∀ nd, KeepsTags nd (f nd))
      (hLog : h.replacements = g.replacements) (hEpoch : h.epoch = g.epoch) : RecordStep g h c
  | kill (n : NodeId) (hn : n < g.nodes.length)
      (hNodes : h.nodes = g.nodes.modify n (NodeRec.killedAt (g.epoch + 1)))
      (hLog : h.replacements = g.replacements) (hEpoch : h.epoch = g.epoch + 1) :
      RecordStep g h (.killNode n)
  | replace (oldNode withNode : NodeId) (hOld : oldNode < g.nodes.length)
      (hWith : withNode < g.nodes.length)
      (hNodes : h.nodes = g.nodes.modify oldNode (NodeRec.replacedAt (g.epoch + 1)))
      (hLog : h.replacements = g.replacements ++ [⟨oldNode, withNode, g.epoch + 1⟩])
      (hEpoch : h.epoch = g.epoch + 1) : RecordStep g h (.replaceNode oldNode withNode)
  | tick (hNodes : h.nodes = g.nodes) (hLog : h.replacements = g.replacements)
      (hEpoch : h.epoch = g.epoch + 1) : RecordStep g h .nextEpoch

theorem has_set_of_has {fs : NodeFlags} {f f' : NodeFlag} (h : fs.has f = true) :
    (fs.set f').has f = true := by
  simp only [NodeFlags.has, NodeFlags.set, bne_iff_ne, ne_eq] at h ⊢
  intro hZero
  apply h
  have hAnd : fs.raw &&& f.bit = (fs.raw ||| f'.bit) &&& f.bit &&& fs.raw := by
    ext i hi
    simp only [getElem_and, getElem_or]
    grind
  rw [hAnd, hZero]
  exact zero_and

theorem has_set_self (fs : NodeFlags) (f : NodeFlag) : (fs.set f).has f = true := by
  simp only [NodeFlags.has, NodeFlags.set, bne_iff_ne, ne_eq]
  intro hZero
  have hBit : (fs.raw ||| f.bit) &&& f.bit = f.bit := by
    ext i hi
    simp only [getElem_and, getElem_or]
    grind
  rw [hBit] at hZero
  cases f <;> exact absurd hZero (by decide)

/-! ## Every call has one of the effects -/

theorem recordStep_makeRaw (c : Call) (kind : NodeKind) (ins : List NodeId) (p p2 : BitVec 32)
    (v : BitVec 64) : RecordStep g (g.makeRaw kind ins p p2 v).1 c :=
  .append c _ rfl rfl rfl (mod_lt _ (by decide)) rfl rfl

theorem recordStep_setInput (n : NodeId) (slot : Nat) (v : NodeId) :
    RecordStep g (g.setInput n slot v) (.setInput n slot v) := by
  apply RecordStep.keep
  · exact setInput_nodes n slot v
  all_goals
    simp only [setInput, removeFromUses]
    split_ifs <;> rfl

theorem recordStep_appendInput (n v : NodeId) :
    RecordStep g (g.appendInput n v) (.appendInput n v) := by
  by_cases hn : n < g.nodes.length
  · apply RecordStep.change (.appendInput n v) n fun nd =>
      { nd with
        edgeOffset := g.edgePool.length
        numInputs := ((g.node n).numInputs + 1) % 65536 }
    · simp only [appendInput, hn, if_true]
      split_ifs <;> rfl
    · intro nd
      exact ⟨rfl, rfl, rfl, rfl, rfl, fun _ h => h, fun _ => mod_lt _ (by decide)⟩
    all_goals
      simp only [appendInput, hn, if_true]
      split_ifs <;> rfl
  · have hSame : g.appendInput n v = g := by
      simp only [appendInput, hn, if_false]
    rw [hSame]
    exact .keep _ rfl rfl rfl

theorem recordStep_attachSpecMeta (n : NodeId) (id : BitVec 32) :
    RecordStep g (g.attachSpecMeta n id) (.attachSpecMeta n id) := by
  apply RecordStep.change (.attachSpecMeta n id) n fun nd =>
    { nd with specMeta := id + 1, flags := nd.flags.set .speculative }
  · rfl
  · intro nd
    exact ⟨rfl, rfl, rfl, rfl, rfl, fun _ h => has_set_of_has h, fun h => h⟩
  · rfl
  · rfl

theorem recordStep_killNode (n : NodeId) : RecordStep g (g.killNode n) (.killNode n) := by
  by_cases hn : n < g.nodes.length
  · apply RecordStep.kill n hn
    · simp only [killNode, hn, if_true]
      rfl
    all_goals simp only [killNode, hn, if_true]
  · have hSame : g.killNode n = g := by
      simp only [killNode, hn, if_false]
    rw [hSame]
    exact .keep _ rfl rfl rfl

theorem foldl_rewireUse_log (oldNode withNode : NodeId) :
    ((g.usesOf oldNode).foldl (rewireUse oldNode withNode) g).replacements = g.replacements := by
  apply foldl_rewireUse (P := fun h => h.replacements = g.replacements) oldNode withNode
  · intro h n slot hEq
    rw [← hEq]
    simp only [setInput, removeFromUses]
    split_ifs <;> rfl
  · rfl

theorem recordStep_replaceNode (oldNode withNode : NodeId) :
    RecordStep g (g.replaceNode oldNode withNode).1 (.replaceNode oldNode withNode) := by
  rcases replaceNode_cases (g := g) oldNode withNode with hSame | ⟨hOld, hWith, -, -, hEq⟩
  · rw [hSame]
    exact .keep _ rfl rfl rfl
  rw [hEq]
  apply RecordStep.replace oldNode withNode hOld hWith
  · rw [← foldl_rewireUse_nodes (g := g) oldNode withNode]
    rfl
  · rw [← foldl_rewireUse_log (g := g) oldNode withNode]
  · rfl

theorem recordStep_appendFrameStateVobj (fs : Nat) (vobj : NodeId) :
    RecordStep g (g.appendFrameStateVobj fs vobj) (.appendFrameStateVobj fs vobj) := by
  apply RecordStep.keep
  all_goals
    simp only [appendFrameStateVobj]
    split <;> rfl

theorem recordStep (g : Store) (c : Call) : RecordStep g (g.step c) c := by
  cases c with
  | makeFrameState method pc locals caller vobjs =>
    exact .append _ _ rfl rfl rfl (mod_lt _ (by decide)) rfl rfl
  | appendFrameStateVobj fs vobj => exact recordStep_appendFrameStateVobj fs vobj
  | addSpecMeta sm | addDependency dep => exact .keep _ rfl rfl rfl
  | attachSpecMeta n id => exact recordStep_attachSpecMeta n id
  | setInput n slot v => exact recordStep_setInput n slot v
  | appendInput n v => exact recordStep_appendInput n v
  | replaceNode oldNode withNode => exact recordStep_replaceNode oldNode withNode
  | killNode n => exact recordStep_killNode n
  | nextEpoch => exact .tick rfl rfl rfl
  | _ => exact recordStep_makeRaw _ _ _ _ _ _

/-! ## Graphs made by calls -/

/-- What every call keeps of records and log: the first record is a start node without
payloads, no record uses its reserved field or has more inputs than its counter holds,
and the log names tombstones. -/
structure Made (g : Store) : Prop where
  nonempty : 0 < g.nodes.length
  start : (g.node 0).kind = .start ∧ (g.node 0).payload = 0 ∧ (g.node 0).payload2 = 0
  reserved : ∀ n, n < g.nodes.length → (g.node n).reserved = 0
  numInputs : ∀ n, n < g.nodes.length → (g.node n).numInputs < 65536
  logged : ∀ r ∈ g.replacements, r.oldNode < g.nodes.length ∧ r.newNode < g.nodes.length
  tombstones : ∀ r ∈ g.replacements,
    (g.node r.oldNode).flags.has .replaced = true ∧ (g.node r.oldNode).flags.has .dead = true

theorem made_fresh : Made fresh := by
  have hLen : fresh.nodes.length = 1 := rfl
  have hZero : ∀ n, n < fresh.nodes.length → n = 0 := by
    intro n hn
    rw [hLen] at hn
    omega
  constructor
  · rw [hLen]
    exact Nat.one_pos
  · exact ⟨rfl, rfl, rfl⟩
  · intro n hn
    rw [hZero n hn]
    rfl
  · intro n hn
    rw [hZero n hn]
    decide
  · intro r hr
    cases hr
  · intro r hr
    cases hr

/-- A graph with the same records and the same log. -/
theorem Made.congr {h : Store} (hMade : Made g) (hNodes : h.nodes = g.nodes)
    (hLog : h.replacements = g.replacements) : Made h := by
  have hNode : ∀ n, h.node n = g.node n := by
    intro n
    rw [node, node, hNodes]
  constructor
  · rw [hNodes]
    exact hMade.nonempty
  · rw [hNode]
    exact hMade.start
  · intro n hn
    rw [hNode]
    exact hMade.reserved n (hNodes ▸ hn)
  · intro n hn
    rw [hNode]
    exact hMade.numInputs n (hNodes ▸ hn)
  · rw [hLog, hNodes]
    exact hMade.logged
  · intro r hr
    rw [hNode]
    exact hMade.tombstones r (hLog ▸ hr)

theorem Made.append {h : Store} {nd : NodeRec} (hMade : Made g)
    (hNodes : h.nodes = g.nodes ++ [nd]) (hReserved : nd.reserved = 0)
    (hNum : nd.numInputs < 65536) (hLog : h.replacements = g.replacements) : Made h := by
  have hNode : ∀ n, h.node n = if n = g.nodes.length then nd else g.node n := by
    intro n
    rw [node, hNodes, getD_append_singleton]
    rfl
  have hOld : ∀ n, n < g.nodes.length → h.node n = g.node n := by
    intro n hn
    rw [hNode, if_neg (Nat.ne_of_lt hn)]
  have hLen : h.nodes.length = g.nodes.length + 1 := by
    rw [hNodes, List.length_append, List.length_singleton]
  have hLe : ∀ n, n < g.nodes.length → n < h.nodes.length := by
    intro n hn
    rw [hLen]
    exact lt_succ_of_lt hn
  have hSplit : ∀ n, n < h.nodes.length → n = g.nodes.length ∨ n < g.nodes.length := by
    intro n hn
    rw [hLen] at hn
    exact (Nat.eq_or_lt_of_le (Nat.le_of_lt_succ hn))
  constructor
  · exact hLe 0 hMade.nonempty
  · rw [hOld 0 hMade.nonempty]
    exact hMade.start
  · intro n hn
    rcases hSplit n hn with hEq | hLt
    · rw [hNode, if_pos hEq]
      exact hReserved
    · rw [hOld n hLt]
      exact hMade.reserved n hLt
  · intro n hn
    rcases hSplit n hn with hEq | hLt
    · rw [hNode, if_pos hEq]
      exact hNum
    · rw [hOld n hLt]
      exact hMade.numInputs n hLt
  · intro r hr
    rw [hLog] at hr
    exact ⟨hLe _ (hMade.logged r hr).1, hLe _ (hMade.logged r hr).2⟩
  · intro r hr
    rw [hLog] at hr
    rw [hOld _ (hMade.logged r hr).1]
    exact hMade.tombstones r hr

/-- A change of one record that keeps what `Made` looks at; the log may grow by an entry
whose node the change turned into a tombstone. -/
theorem Made.modify {h : Store} {n : NodeId} {f : NodeRec → NodeRec} (hMade : Made g)
    (hNodes : h.nodes = g.nodes.modify n f)
    (hKeep : ∀ nd, (f nd).kind = nd.kind ∧ (f nd).payload = nd.payload ∧
      (f nd).payload2 = nd.payload2 ∧ (f nd).reserved = nd.reserved)
    (hFlags : ∀ nd b, nd.flags.has b = true → (f nd).flags.has b = true)
    (hNum : ∀ nd, nd.numInputs < 65536 → (f nd).numInputs < 65536)
    (hLog : ∀ r ∈ h.replacements, r ∈ g.replacements ∨
      (r.oldNode = n ∧ n < g.nodes.length ∧ r.newNode < g.nodes.length ∧
        ∀ nd, (f nd).flags.has .replaced = true ∧ (f nd).flags.has .dead = true)) :
    Made h := by
  have hNode : ∀ m, h.node m = if m = n ∧ n < g.nodes.length then f (g.node n) else g.node m := by
    intro m
    rw [node, hNodes, getD_modify]
    rfl
  have hLen : h.nodes.length = g.nodes.length := by
    rw [hNodes, List.length_modify]
  have hSame : ∀ m, (h.node m).kind = (g.node m).kind ∧
      (h.node m).payload = (g.node m).payload ∧ (h.node m).payload2 = (g.node m).payload2 ∧
      (h.node m).reserved = (g.node m).reserved := by
    intro m
    rw [hNode]
    by_cases hm : m = n ∧ n < g.nodes.length
    · rw [if_pos hm, hm.1]
      exact hKeep _
    · rw [if_neg hm]
      exact ⟨rfl, rfl, rfl, rfl⟩
  have hGrow : ∀ m b, (g.node m).flags.has b = true → (h.node m).flags.has b = true := by
    intro m b hb
    rw [hNode]
    by_cases hm : m = n ∧ n < g.nodes.length
    · rw [if_pos hm]
      rw [hm.1] at hb
      exact hFlags _ b hb
    · rw [if_neg hm]
      exact hb
  constructor
  · rw [hLen]
    exact hMade.nonempty
  · rw [(hSame 0).1, (hSame 0).2.1, (hSame 0).2.2.1]
    exact hMade.start
  · intro m hm
    rw [(hSame m).2.2.2]
    exact hMade.reserved m (hLen ▸ hm)
  · intro m hm
    rw [hNode]
    by_cases hmn : m = n ∧ n < g.nodes.length
    · rw [if_pos hmn]
      exact hNum _ (hMade.numInputs n hmn.2)
    · rw [if_neg hmn]
      exact hMade.numInputs m (hLen ▸ hm)
  · intro r hr
    rw [hLen]
    rcases hLog r hr with hOld | ⟨hn, hLt, hNew, -⟩
    · exact hMade.logged r hOld
    · exact ⟨hn ▸ hLt, hNew⟩
  · intro r hr
    rcases hLog r hr with hOld | ⟨hn, hLt, -, hTomb⟩
    · exact ⟨hGrow _ _ (hMade.tombstones r hOld).1, hGrow _ _ (hMade.tombstones r hOld).2⟩
    · rw [hNode, if_pos ⟨hn, hLt⟩]
      exact hTomb _

theorem Made.step (hMade : Made g) (c : Call) : Made (g.step c) := by
  cases recordStep g c with
  | keep _ hNodes hLog _ => exact hMade.congr hNodes hLog
  | append _ nd hNodes hReserved _ hNum hLog _ => exact hMade.append hNodes hReserved hNum hLog
  | change _ n f hNodes hf hLog _ =>
    apply hMade.modify hNodes
    · intro nd
      exact ⟨(hf nd).kind, (hf nd).payload, (hf nd).payload2, (hf nd).reserved⟩
    · intro nd b hb
      exact (hf nd).flags b hb
    · intro nd hNum
      exact (hf nd).numInputs hNum
    · intro r hr
      exact Or.inl (hLog ▸ hr)
  | kill n hn hNodes hLog _ =>
    apply hMade.modify hNodes
    · intro nd
      exact ⟨rfl, rfl, rfl, rfl⟩
    · intro nd b hb
      exact has_set_of_has hb
    · intro nd hNum
      exact hNum
    · intro r hr
      exact Or.inl (hLog ▸ hr)
  | replace oldNode withNode hOld hWith hNodes hLog _ =>
    apply hMade.modify hNodes
    · intro nd
      exact ⟨rfl, rfl, rfl, rfl⟩
    · intro nd b hb
      exact has_set_of_has (has_set_of_has hb)
    · intro nd hNum
      exact hNum
    intro r hr
    rw [hLog, List.mem_append, List.mem_singleton] at hr
    rcases hr with hr | rfl
    · exact Or.inl hr
    · exact Or.inr ⟨rfl, hOld, hWith, fun nd =>
        ⟨has_set_of_has (has_set_self _ _), has_set_self _ _⟩⟩
  | tick hNodes hLog _ => exact hMade.congr hNodes hLog

theorem Made.run (hMade : Made g) (calls : List Call) : Made (g.run calls) := by
  induction calls generalizing g with
  | nil => exact hMade
  | cons c calls ih => exact ih (hMade.step c)

end Store

end B2Compiler.Ir
