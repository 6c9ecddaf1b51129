import B2Compiler.Ir.SerializeCorrect

/-!
# Epochs

Replacing and killing stamp a node with a counter that is one more than before.  The
counter is no part of the format; the reader takes it from the log.  This module says
along which sequences of calls and loads it stays ahead of every stamp in the graph.
-/

namespace B2Compiler.Ir

open Lib List

inductive Action where
  | call (c : Call)
  | load (bs : List Byte)

/-- A load that fails leaves the graph at hand. -/
def Store.act (g : Store) : Action → Store
  | .call c => g.step c
  | .load bs =>
    match deserializeInto bs Store.fresh with
    | some (.ok g') => g'
    | _ => g

def Store.runActions (g : Store) (as : List Action) : Store := as.foldl Store.act g

/-! ## Stamps -/

namespace Store

/-- A stamp in the graph: the epoch tag of a node or of a log entry. -/
def Stamped (g : Store) (e : BitVec 32) : Prop :=
  (∃ n, n < g.nodes.length ∧ (g.node n).epoch = e) ∨ ∃ r ∈ g.replacements, r.epoch = e

/-- The counter is ahead of every stamp. -/
def EpochBound (g : Store) : Prop := ∀ e, g.Stamped e → e ≤ g.epoch

end Store

def Call.tombstone (g : Store) : Call → Option NodeId
  | .killNode n => if n < g.nodes.length then some n else none
  | .replaceNode oldNode withNode =>
    if oldNode < g.nodes.length ∧ withNode < g.nodes.length ∧
        (g.node withNode).isDead = false ∧ oldNode ≠ withNode then some oldNode
    else none
  | _ => none

/-- Every stamp of a record the log does not name occurs in the log or is below one that
does. -/
def Image.StampsLogged (im : Image) : Prop :=
  ∀ n nd, im.nodes[n]? = some nd → lastEpoch im.replacements n = none →
    nd.epoch ≤ logEpoch 0 im.replacements

/-- The counter does not wrap, and a file's stamps are covered by its log. -/
def Action.Counted (g : Store) : Action → Prop
  | .call (.killNode _) => g.epoch ≠ 0xFFFFFFFF
  | .call (.replaceNode _ _) => g.epoch ≠ 0xFFFFFFFF
  | .call .nextEpoch => g.epoch ≠ 0xFFFFFFFF
  | .call _ => True
  | .load bs => ∀ version im rest, decode bs = .ok ((version, im), rest) → im.StampsLogged

/-- Every action of a sequence is counted where it happens. -/
def Counted (g : Store) : List Action → Prop
  | [] => True
  | a :: as => a.Counted g ∧ Counted (g.act a) as

/-! ## One call -/

theorem zero_le_epoch (e : BitVec 32) : 0 ≤ e := by
  bv_omega

theorem lt_succ_of_le {e e' : BitVec 32} (h : e ≤ e') (hMax : e' ≠ 0xFFFFFFFF) : e < e' + 1 := by
  have hNat : e'.toNat ≠ 4294967295 := by
    intro hEq
    apply hMax
    apply BitVec.eq_of_toNat_eq
    rw [hEq]
    rfl
  bv_omega

namespace Store

variable {g : Store}

theorem EpochBound.node (hBound : g.EpochBound) {n : NodeId} (hn : n < g.nodes.length) :
    (g.node n).epoch ≤ g.epoch :=
  hBound _ (Or.inl ⟨n, hn, rfl⟩)

theorem EpochBound.log (hBound : g.EpochBound) {r : Replacement} (hr : r ∈ g.replacements) :
    r.epoch ≤ g.epoch :=
  hBound _ (Or.inr ⟨r, hr, rfl⟩)

/-- A change of one record, and perhaps one log entry, with stamps up to a new counter. -/
theorem EpochBound.modify {h : Store} {n : NodeId} {f : NodeRec → NodeRec}
    (hBound : g.EpochBound) (hNodes : h.nodes = g.nodes.modify n f) (hLe : g.epoch ≤ h.epoch)
    (hf : ∀ nd, nd.epoch ≤ g.epoch → (f nd).epoch ≤ h.epoch)
    (hLog : ∀ r ∈ h.replacements, r ∈ g.replacements ∨ r.epoch ≤ h.epoch) : h.EpochBound := by
  rintro e (⟨m, hm, rfl⟩ | ⟨r, hr, rfl⟩)
  · rw [hNodes, length_modify] at hm
    have hNode : h.node m = if m = n ∧ n < g.nodes.length then f (g.node n) else g.node m := by
      rw [Store.node, hNodes, getD_modify]
      rfl
    rw [hNode]
    by_cases hmn : m = n ∧ n < g.nodes.length
    · rw [if_pos hmn]
      exact hf _ (hBound.node hmn.2)
    · rw [if_neg hmn]
      exact BitVec.le_trans (hBound.node hm) hLe
  · rcases hLog r hr with hOld | hNew
    · exact BitVec.le_trans (hBound.log hOld) hLe
    · exact hNew

theorem EpochBound.step (hBound : g.EpochBound) (c : Call) (hCounted : (Action.call c).Counted g) :
    (g.step c).EpochBound := by
  cases recordStep g c with
  | keep _ hNodes hLog hEpoch =>
    rintro e (⟨n, hn, rfl⟩ | ⟨r, hr, rfl⟩)
    · rw [hEpoch, Store.node, hNodes]
      exact hBound.node (hNodes ▸ hn)
    · rw [hEpoch]
      exact hBound.log (hLog ▸ hr)
  | append _ nd hNodes _ hTag _ hLog hEpoch =>
    rintro e (⟨n, hn, rfl⟩ | ⟨r, hr, rfl⟩)
    · rw [hNodes, length_append, length_singleton] at hn
      rw [hEpoch, Store.node, hNodes, getD_append_singleton]
      by_cases hLast : n = g.nodes.length
      · rw [if_pos hLast, hTag]
        exact zero_le_epoch _
      · rw [if_neg hLast]
        have hLt : n < g.nodes.length := Nat.lt_of_le_of_ne (Nat.le_of_lt_succ hn) hLast
        exact hBound.node hLt
    · rw [hEpoch]
      exact hBound.log (hLog ▸ hr)
  | change _ n f hNodes hf hLog hEpoch =>
    apply hBound.modify hNodes
    · rw [hEpoch]
      exact BitVec.le_refl _
    · intro nd hnd
      rw [(hf nd).epoch, hEpoch]
      exact hnd
    · intro r hr
      exact Or.inl (hLog ▸ hr)
  | kill n hn hNodes hLog hEpoch =>
    have hLt := lt_succ_of_le (BitVec.le_refl g.epoch) hCounted
    apply hBound.modify hNodes
    · rw [hEpoch]
      exact BitVec.le_of_lt hLt
    · intro nd _
      rw [hEpoch]
      exact BitVec.le_refl _
    · intro r hr
      exact Or.inl (hLog ▸ hr)
  | replace oldNode withNode hOld hWith hNodes hLog hEpoch =>
    have hLt := lt_succ_of_le (BitVec.le_refl g.epoch) hCounted
    apply hBound.modify hNodes
    · rw [hEpoch]
      exact BitVec.le_of_lt hLt
    · intro nd _
      rw [hEpoch]
      exact BitVec.le_refl _
    intro r hr
    rw [hLog, mem_append, mem_singleton] at hr
    rcases hr with hr | rfl
    · exact Or.inl hr
    · right
      rw [hEpoch]
      exact BitVec.le_refl _
  | tick hNodes hLog hEpoch =>
    have hLe := BitVec.le_of_lt (lt_succ_of_le (BitVec.le_refl g.epoch) hCounted)
    rintro e (⟨n, hn, rfl⟩ | ⟨r, hr, rfl⟩)
    · rw [hEpoch, Store.node, hNodes]
      exact BitVec.le_trans (hBound.node (hNodes ▸ hn)) hLe
    · rw [hEpoch]
      exact BitVec.le_trans (hBound.log (hLog ▸ hr)) hLe

/-- The stamp of a tombstone is one more than the counter was. -/
theorem tombstone_epoch {c : Call} {n : NodeId} (h : c.tombstone g = some n) :
    ((g.step c).node n).epoch = g.epoch + 1 := by
  cases c with
  | killNode m =>
    simp only [Call.tombstone] at h
    split_ifs at h with hm
    injection h with h
    subst h
    have hNodes : (g.killNode m).nodes = g.nodes.modify m (NodeRec.killedAt (g.epoch + 1)) := by
      simp only [killNode, hm, if_true]
      rfl
    rw [Store.node, Store.step, hNodes, getD_modify, if_pos ⟨rfl, hm⟩]
    rfl
  | replaceNode oldNode withNode =>
    simp only [Call.tombstone] at h
    split_ifs at h with hGuard
    injection h with h
    subst h
    have hNodes : (g.replaceNode oldNode withNode).1.nodes =
        g.nodes.modify oldNode (NodeRec.replacedAt (g.epoch + 1)) := by
      rw [← foldl_rewireUse_nodes (g := g) oldNode withNode]
      simp only [replaceNode, if_pos hGuard]
      rfl
    rw [Store.node, Store.step, hNodes, getD_modify, if_pos ⟨rfl, hGuard.1⟩]
    rfl
  | _ => cases h

end Store

theorem le_logEpoch (e : BitVec 32) (log : List Replacement) : e ≤ logEpoch e log := by
  induction log generalizing e with
  | nil => exact BitVec.le_refl e
  | cons r log ih =>
    rw [logEpoch, foldl_cons]
    by_cases hLt : e < r.epoch
    · rw [if_pos hLt]
      exact BitVec.le_trans (BitVec.le_of_lt hLt) (ih r.epoch)
    · rw [if_neg hLt]
      exact ih e

theorem mem_le_logEpoch (e : BitVec 32) {log : List Replacement} {r : Replacement}
    (hr : r ∈ log) : r.epoch ≤ logEpoch e log := by
  induction log generalizing e with
  | nil => cases hr
  | cons r' log ih =>
    rw [logEpoch, foldl_cons]
    rcases mem_cons.mp hr with rfl | hr
    · by_cases hLt : e < r.epoch
      · rw [if_pos hLt]
        exact le_logEpoch r.epoch log
      · rw [if_neg hLt]
        exact BitVec.le_trans (BitVec.not_lt.mp hLt) (le_logEpoch e log)
    · exact ih _ hr

/-- After a load the counter is ahead exactly when the log covers the records' stamps. -/
theorem epochBound_replayStore (im : Image) (hFits : im.Fits) (hLog : im.LogInRange) :
    (replayStore im).EpochBound ↔ im.StampsLogged := by
  have hImage := replayStore_image im hFits hLog
  have hEpoch := epoch_replayStore im hLog
  have hRepl : (replayStore im).replacements = im.replacements :=
    congrArg Image.replacements hImage
  have hNode : ∀ n, n < (replayStore im).nodes.length →
      im.rebuilt.nodes[n]? = some ((replayStore im).nodeImage n) := by
    intro n hn
    rw [← hImage, getElem?_image_nodes, if_pos hn]
  -- clearing the start node's payloads leaves the stamps alone
  have hClear : ∀ (n : Nat) (nd : NodeImage), (clearStart im.nodes)[n]? = some nd →
      nd.epoch = 0 ∨ ∃ nd', im.nodes[n]? = some nd' ∧ nd'.epoch = nd.epoch := by
    intro n nd hnd
    cases hNodes : im.nodes with
    | nil =>
      rw [hNodes] at hnd
      cases n with
      | zero =>
        injection hnd with hnd
        rw [← hnd]
        exact Or.inl rfl
      | succ n => cases hnd
    | cons nd₀ rest =>
      rw [hNodes] at hnd
      right
      cases n with
      | zero =>
        injection hnd with hnd
        exact ⟨nd₀, rfl, by rw [← hnd]⟩
      | succ n => exact ⟨nd, hnd, rfl⟩
  constructor
  · intro hBound n nd hnd hLast
    have hRebuilt : ∃ nd', im.rebuilt.nodes[n]? = some nd' ∧ nd'.epoch = nd.epoch := by
      rw [Image.rebuilt, getElem?_foldl_retagNodes, hLast]
      cases hNodes : im.nodes with
      | nil =>
        rw [hNodes] at hnd
        cases hnd
      | cons nd₀ rest =>
        rw [hNodes] at hnd
        cases n with
        | zero =>
          injection hnd with hnd
          exact ⟨_, rfl, by rw [← hnd]⟩
        | succ n => exact ⟨nd, hnd, rfl⟩
    obtain ⟨nd', hnd', hEq⟩ := hRebuilt
    rw [← hImage, getElem?_image_nodes] at hnd'
    split_ifs at hnd' with hn
    injection hnd' with hnd'
    rw [← hEq, ← hnd', ← hEpoch]
    exact hBound.node hn
  · rintro hStamps e (⟨n, hn, rfl⟩ | ⟨r, hr, rfl⟩)
    · have hGet := hNode n hn
      rw [Image.rebuilt, getElem?_foldl_retagNodes] at hGet
      rw [hEpoch]
      change ((replayStore im).nodeImage n).epoch ≤ _
      cases hLast : lastEpoch im.replacements n with
      | none =>
        rw [hLast] at hGet
        rcases hClear n _ hGet with hZero | ⟨nd', hnd', hEq⟩
        · rw [hZero]
          exact zero_le_epoch _
        · rw [← hEq]
          exact hStamps n nd' hnd' hLast
      | some e =>
        rw [hLast] at hGet
        obtain ⟨nd', -, hEq⟩ := Option.map_eq_some_iff.mp hGet
        obtain ⟨r, hr, -, hre⟩ := lastEpoch_eq_some hLast
        rw [← hEq]
        change e ≤ _
        rw [← hre]
        exact mem_le_logEpoch 0 hr
    · rw [hEpoch]
      exact mem_le_logEpoch 0 (hRepl ▸ hr)

/-! ## Whole sequences -/

theorem epochBound_fresh : Store.fresh.EpochBound := by
  rintro e (⟨n, -, rfl⟩ | ⟨r, hr, -⟩)
  · have hTag : (Store.fresh.node n).epoch = 0 := by
      cases n <;> rfl
    rw [hTag]
    exact zero_le_epoch _
  · cases hr

theorem Store.EpochBound.act {g : Store} (hBound : g.EpochBound) (a : Action)
    (hCounted : a.Counted g) : (g.act a).EpochBound := by
  cases a with
  | call c => exact hBound.step c hCounted
  | load bs =>
    rw [Store.act]
    split
    · next g' hLoad =>
        obtain ⟨version, im, rest, hDecode, -, hLog, rfl, -⟩ :=
          (deserializeInto_eq_ok_iff ..).mp hLoad
        obtain ⟨-, -, hFits⟩ := exact_decode.put_get _ _ _ hDecode
        exact (epochBound_replayStore im hFits hLog).mpr (hCounted version im rest hDecode)
    · exact hBound

theorem counted_append (g : Store) (pre post : List Action) :
    Counted g (pre ++ post) ↔ Counted g pre ∧ Counted (g.runActions pre) post := by
  induction pre generalizing g with
  | nil => simp [Counted, Store.runActions]
  | cons a pre ih =>
    rw [cons_append, Counted, Counted, ih, and_assoc]
    rfl

theorem Store.EpochBound.runActions {g : Store} (hBound : g.EpochBound) (as : List Action)
    (hCounted : Counted g as) : (g.runActions as).EpochBound := by
  induction as generalizing g with
  | nil => exact hBound
  | cons a as ih => exact ih (hBound.act a hCounted.1) hCounted.2

/-- Along every sequence of calls and loads in which the counter does not wrap and every
loaded file's stamps are covered by its log, the counter is ahead of every stamp, and
every tombstone is stamped later than all stamps before it. -/
theorem epochs_monotone (as : List Action) (hCounted : Counted Store.fresh as)
    (pre post : List Action) (hSplit : as = pre ++ post) :
    (Store.fresh.runActions pre).EpochBound ∧ ∀ c rest n, post = .call c :: rest →
        c.tombstone (Store.fresh.runActions pre) = some n →
        ∀ e, (Store.fresh.runActions pre).Stamped e →
          e < (((Store.fresh.runActions pre).step c).node n).epoch := by
  rw [hSplit, counted_append] at hCounted
  obtain ⟨hPre, hPost⟩ := hCounted
  have hBound := epochBound_fresh.runActions pre hPre
  refine ⟨hBound, ?_⟩
  intro c rest n hCall hTomb e hStamp
  rw [hCall] at hPost
  rw [Store.tombstone_epoch hTomb]
  apply lt_succ_of_le (hBound e hStamp)
  have hCall' := hPost.1
  cases c with
  | killNode m | replaceNode oldNode withNode => exact hCall'
  | _ => cases hTomb

/-- A replacement, a reload of the graph's own file and a kill. -/
def replacedAndReloaded : List Action :=
  [.call (.constantI 5), .call (.constantI 6), .call (.replaceNode 1 2),
    .load (serialize (Store.fresh.run [.constantI 5, .constantI 6, .replaceNode 1 2]))]

theorem epochs_monotone_replacedAndReloaded :
    (Store.fresh.runActions replacedAndReloaded).EpochBound ∧
      ∀ e, (Store.fresh.runActions replacedAndReloaded).Stamped e →
        e < (((Store.fresh.runActions replacedAndReloaded).step (.killNode 2)).node 2).epoch := by
  have hDecode : decode (serialize
      (Store.fresh.run [.constantI 5, .constantI 6, .replaceNode 1 2])) =
      .ok ((kIrFormatVersion,
        (Store.fresh.run [.constantI 5, .constantI 6, .replaceNode 1 2]).image), []) := by
    decide +kernel
  have hStamps : ∀ nd ∈ (Store.fresh.run
        [.constantI 5, .constantI 6, .replaceNode 1 2]).image.nodes,
      nd.epoch ≤ logEpoch 0 (Store.fresh.run
        [.constantI 5, .constantI 6, .replaceNode 1 2]).image.replacements := by
    decide +kernel
  have hReplace : (Store.fresh.run [.constantI 5, .constantI 6]).epoch ≠ 0xFFFFFFFF := by
    decide +kernel
  have hKill : (Store.fresh.runActions replacedAndReloaded).epoch ≠ 0xFFFFFFFF := by
    decide +kernel
  have hCounted : Counted Store.fresh (replacedAndReloaded ++ [.call (.killNode 2)]) := by
    refine (counted_append ..).mpr ⟨⟨trivial, trivial, hReplace, ?_, trivial⟩, hKill, trivial⟩
    intro version im rest hIm
    rw [hDecode] at hIm
    injection hIm with hIm
    injection hIm with hPair _
    injection hPair with _ hIm
    subst hIm
    intro n nd hnd _
    exact hStamps nd (mem_of_getElem? hnd)
  obtain ⟨hBound, hFresh⟩ := epochs_monotone _ hCounted replacedAndReloaded
    [.call (.killNode 2)] rfl
  exact ⟨hBound, hFresh (.killNode 2) [] 2 rfl (by decide +kernel)⟩

/-- A kill, saved and loaded: the log is empty, so the counter starts over. -/
def killedAndReloaded : List Action :=
  [.call (.constantI 5), .call (.constantI 6), .call (.killNode 1),
    .load (serialize (Store.fresh.run [.constantI 5, .constantI 6, .killNode 1]))]

/-- The counter is behind the stamp of the killed node, and the next tombstone gets that
stamp again. -/
theorem not_epochs_monotone : ¬ (Store.fresh.runActions killedAndReloaded).EpochBound ∧
      ∃ e, (Store.fresh.runActions killedAndReloaded).Stamped e ∧
        ¬ e < (((Store.fresh.runActions killedAndReloaded).step (.killNode 2)).node 2).epoch := by
  have hStamp : (Store.fresh.runActions killedAndReloaded).Stamped 1 :=
    Or.inl ⟨1, by decide +kernel, by decide +kernel⟩
  refine ⟨?_, 1, hStamp, by decide +kernel⟩
  intro hBound
  have hLe := hBound 1 hStamp
  have hNot : ¬ (1 : BitVec 32) ≤ (Store.fresh.runActions killedAndReloaded).epoch := by
    decide +kernel
  exact hNot hLe

end B2Compiler.Ir
