import B2Compiler.Ir.Store

/-!
# Slices of the edge pool

`Ok` says that the slices of different nodes lie inside the pool and do not overlap.
It survives every call, also one that wraps an input count, and it is what lets an edge
be moved without disturbing another node.  The lemmas here say what each call does to
the inputs and the use lists of every node.
-/

namespace B2Compiler.Ir

open List Nat Store

theorem mapM_congr_mem {α β : Type} {f f' : α → Option β} (l : List α)
    (h : ∀ x ∈ l, f x = f' x) : l.mapM f = l.mapM f' := by
  induction l with
  | nil => rfl
  | cons x l ih =>
    rw [mapM_cons, mapM_cons, h x mem_cons_self,
      ih fun y hy => h y (mem_cons_of_mem _ hy)]

theorem getD_modify {α : Type} (l : List α) (n m : Nat) (f : α → α) (dflt : α) :
    (l.modify n f).getD m dflt =
      if m = n ∧ n < l.length then f (l.getD n dflt) else l.getD m dflt := by
  rw [getD_eq_getElem?_getD, getD_eq_getElem?_getD, getD_eq_getElem?_getD, getElem?_modify]
  by_cases hmn : m = n
  · subst hmn
    by_cases hLt : m < l.length
    · simp [hLt]
    · simp [hLt]
  · simp [hmn, Ne.symm hmn]

theorem getD_append_singleton {α : Type} (l : List α) (x dflt : α) (m : Nat) :
    (l ++ [x]).getD m dflt = if m = l.length then x else l.getD m dflt := by
  rw [getD_eq_getElem?_getD, getD_eq_getElem?_getD, getElem?_append]
  by_cases hLt : m < l.length
  · simp [hLt, Nat.ne_of_lt hLt]
  · by_cases hEq : m = l.length
    · simp [hEq]
    · have hGt : l.length < m := by omega
      simp [hLt, hEq, sub_ne_zero_of_lt hGt]

/-- A list names each of its positions once in its enumeration. -/
theorem count_zipIdx {α : Type} [DecidableEq α] (xs : List α) (k : Nat) (x : α) (i : Nat) :
    (xs.zipIdx k).count (x, i) = if k ≤ i ∧ xs[i - k]? = some x then 1 else 0 := by
  induction xs generalizing k with
  | nil => simp
  | cons y ys ih =>
    rw [zipIdx_cons, count_cons, ih (k + 1)]
    rcases Nat.lt_trichotomy i k with hLt | hEq | hGt
    · have h1 : ¬ k + 1 ≤ i := by omega
      have h2 : ¬ k ≤ i := by omega
      simp [h1, h2, Nat.ne_of_gt hLt]
    · subst hEq
      have h1 : ¬ i + 1 ≤ i := by omega
      by_cases hxy : y = x
      · simp [hxy, h1]
      · simp [hxy, h1]
    · have h1 : k + 1 ≤ i := hGt
      have h2 : k ≤ i := by omega
      have h3 : i - k = (i - (k + 1)) + 1 := by omega
      simp [h1, h2, h3, Nat.ne_of_lt hGt]

namespace Store

variable {g : Store}

/-! ## Slices -/

/-- The slices lie inside the pool and do not overlap. -/
structure Ok (g : Store) : Prop where
  usesLength : g.uses.length = g.nodes.length
  inRange : ∀ n, (g.node n).edgeOffset + (g.node n).numInputs ≤ g.edgePool.length
  disjoint : ∀ n m, n ≠ m → (g.node n).edgeOffset + (g.node n).numInputs ≤ (g.node m).edgeOffset ∨
      (g.node m).edgeOffset + (g.node m).numInputs ≤ (g.node n).edgeOffset

theorem node_of_le {n : NodeId} (h : g.nodes.length ≤ n) : g.node n = {} := by
  rw [node, getD_eq_getElem?_getD, getElem?_eq_none h]
  rfl

theorem getElem?_inputs (n : NodeId) (i : Nat) : (g.inputs n)[i]? =
      if i < (g.node n).numInputs then g.edgePool[(g.node n).edgeOffset + i]? else none := by
  simp [inputs, getElem?_take, getElem?_drop]

theorem length_inputs (hOk : Ok g) (n : NodeId) : (g.inputs n).length = g.numInputs n := by
  have hRange := hOk.inRange n
  simp only [inputs, numInputs, length_take, length_drop]
  omega

/-- Reading a slot through the source's accessor and through the slice is the same. -/
theorem inputs_eq_some_iff (hOk : Ok g) (u : NodeId) (i : Nat) (d : NodeId) :
    (g.inputs u)[i]? = some d ↔ i < g.numInputs u ∧ g.input u i = d := by
  have hRange := hOk.inRange u
  rw [getElem?_inputs]
  by_cases hi : i < (g.node u).numInputs
  · have hIn : (g.node u).edgeOffset + i < g.edgePool.length := by omega
    simp [hi, input, numInputs, getElem?_eq_getElem hIn]
  · simp [hi, numInputs]

theorem inputs_congr {h : Store} {n : NodeId} (hNum : (h.node n).numInputs = (g.node n).numInputs)
    (hPool : ∀ i, i < (g.node n).numInputs →
      h.edgePool[(h.node n).edgeOffset + i]? = g.edgePool[(g.node n).edgeOffset + i]?) :
    h.inputs n = g.inputs n := by
  apply ext_getElem?
  intro i
  rw [getElem?_inputs, getElem?_inputs, hNum]
  by_cases hi : i < (g.node n).numInputs
  · rw [if_pos hi, if_pos hi, hPool i hi]
  · rw [if_neg hi, if_neg hi]

/-! ## What making a node does -/

section Make

variable (kind : NodeKind) (ins : List NodeId) (p p2 : BitVec 32) (c : BitVec 64)

theorem makeRaw_node (m : NodeId) : ((g.makeRaw kind ins p p2 c).1).node m =
      if m = g.nodes.length then
        { kind, edgeOffset := g.edgePool.length, numInputs := ins.length % 65536,
          payload := p, payload2 := p2, constValue := c }
      else g.node m := by
  simp only [node, makeRaw, getD_append_singleton]

theorem makeRaw_length : ((g.makeRaw kind ins p p2 c).1).nodes.length = g.nodes.length + 1 := by
  simp [makeRaw]

theorem makeRaw_inputs (hOk : Ok g) (m : NodeId) : ((g.makeRaw kind ins p p2 c).1).inputs m =
      if m = g.nodes.length then ins.take (ins.length % 65536) else g.inputs m := by
  by_cases hm : m = g.nodes.length
  · rw [if_pos hm, inputs, makeRaw_node, if_pos hm]
    simp [makeRaw]
  rw [if_neg hm]
  apply inputs_congr
  · rw [makeRaw_node, if_neg hm]
  · intro i hi
    have hRange := hOk.inRange m
    rw [makeRaw_node, if_neg hm]
    exact getElem?_append_left (by omega)

theorem length_foldl_entry (l : List (NodeId × Nat)) (id bound : Nat) (us : List (List Use)) :
    (l.foldl (fun us p => if p.1 < bound then us.modify p.1 (· ++ [⟨id, p.2⟩]) else us)
      us).length = us.length := by
  induction l generalizing us with
  | nil => rfl
  | cons q l ih =>
    rw [foldl_cons, ih]
    split <;> simp

theorem count_foldl_entry (l : List (NodeId × Nat)) (id bound : Nat) (us : List (List Use))
    (hus : us.length = bound) (d u : NodeId) (i : Nat) :
    ((l.foldl (fun us p => if p.1 < bound then us.modify p.1 (· ++ [⟨id, p.2⟩]) else us)
      us).getD d []).count ⟨u, i⟩ =
      (us.getD d []).count ⟨u, i⟩ + if u = id ∧ d < bound then l.count (d, i) else 0 := by
  induction l generalizing us with
  | nil => simp
  | cons q l ih =>
    rw [foldl_cons, ih _ (by split <;> simpa using hus), count_cons]
    by_cases hq : q.1 < bound
    · rw [if_pos hq, getD_modify]
      by_cases hqd : d = q.1
      · rw [if_pos ⟨hqd, hus ▸ hq⟩, count_append, hqd]
        by_cases hu : u = id
        · subst hu
          by_cases hqi : q.2 = i
          · have hEq : (q == (q.1, i)) = true := by simp [← hqi]
            simp [hqi, hEq, hq]
            omega
          · have hEq : (q == (q.1, i)) = false := by
              simp only [beq_eq_false_iff_ne, ne_eq]
              intro hBad
              exact hqi (congrArg Prod.snd hBad)
            simp [hqi, hEq]
        · simp [hu, Ne.symm hu]
      · have hEq : (q == (d, i)) = false := by
          simp only [beq_eq_false_iff_ne, ne_eq]
          intro hBad
          exact hqd (congrArg Prod.fst hBad).symm
        rw [if_neg (by simp [hqd])]
        simp [hEq]
    · rw [if_neg hq]
      by_cases hd : d < bound
      · have hEq : (q == (d, i)) = false := by
          simp only [beq_eq_false_iff_ne, ne_eq]
          intro hBad
          rw [hBad] at hq
          exact hq hd
        simp [hEq]
      · simp [hd]

theorem makeRaw_uses (hOk : Ok g) (d u : NodeId) (i : Nat) :
    (((g.makeRaw kind ins p p2 c).1).usesOf d).count ⟨u, i⟩ = (g.usesOf d).count ⟨u, i⟩ +
        if (u = g.nodes.length ∧ d < g.nodes.length + 1) ∧
            (ins.take (ins.length % 65536))[i]? = some d then 1 else 0 := by
  have hLen : (g.uses ++ [[]]).length = g.nodes.length + 1 := by
    simp [hOk.usesLength]
  simp only [makeRaw, usesOf, length_append, length_singleton]
  rw [count_foldl_entry _ _ _ _ hLen, count_zipIdx]
  have hOld : (g.uses ++ [[]]).getD d [] = g.uses.getD d [] := by
    rw [getD_append_singleton]
    by_cases hd : d = g.uses.length
    · rw [if_pos hd, getD_eq_getElem?_getD, getElem?_eq_none (Nat.le_of_eq hd.symm)]
      rfl
    · rw [if_neg hd]
  rw [hOld]
  by_cases hu : u = g.nodes.length ∧ d < g.nodes.length + 1
  · rw [if_pos hu, if_congr (and_iff_right hu) rfl rfl,
      if_congr (and_iff_right (Nat.zero_le i)) rfl rfl, Nat.sub_zero]
  · rw [if_neg hu, if_neg fun h => hu h.1]

theorem Ok.makeRaw (hOk : Ok g) : Ok (g.makeRaw kind ins p p2 c).1 := by
  constructor
  · simp only [Store.makeRaw, length_append, length_singleton]
    rw [length_foldl_entry]
    simp [hOk.usesLength]
  · intro n
    have hRange := hOk.inRange n
    have hPool : ((g.makeRaw kind ins p p2 c).1).edgePool = g.edgePool ++ ins := rfl
    rw [makeRaw_node, hPool, length_append]
    have hMod := mod_le ins.length 65536
    split
    · dsimp only
      omega
    · omega
  · intro n m hnm
    have hn := hOk.inRange n
    have hm := hOk.inRange m
    have hDis := hOk.disjoint n m hnm
    rw [makeRaw_node, makeRaw_node]
    by_cases hnl : n = g.nodes.length
    · by_cases hml : m = g.nodes.length
      · exact absurd (hnl.trans hml.symm) hnm
      · rw [if_pos hnl, if_neg hml]
        exact Or.inr hm
    · by_cases hml : m = g.nodes.length
      · rw [if_neg hnl, if_pos hml]
        exact Or.inl hn
      · rw [if_neg hnl, if_neg hml]
        exact hDis

end Make

/-! ## What moving an edge does -/

section SetInput

variable (n : NodeId) (slot : Nat) (v : NodeId)

theorem setInput_nodes : (g.setInput n slot v).nodes = g.nodes := by
  simp only [setInput, removeFromUses]
  split_ifs <;> rfl

theorem setInput_node (m : NodeId) : (g.setInput n slot v).node m = g.node m := by
  rw [node, setInput_nodes, node]

theorem setInput_pool (hn : n < g.nodes.length) (hSlot : slot < (g.node n).numInputs) :
    (g.setInput n slot v).edgePool = g.edgePool.set ((g.node n).edgeOffset + slot) v := by
  simp only [setInput, removeFromUses, hn, hSlot, if_true]
  by_cases hOld : g.edgePool.getD ((g.node n).edgeOffset + slot) 0 = v
  · rw [if_pos hOld]
    apply ext_getElem?
    intro i
    rw [getElem?_set]
    by_cases hi : (g.node n).edgeOffset + slot = i
    · subst hi
      rw [if_pos rfl]
      by_cases hIn : (g.node n).edgeOffset + slot < g.edgePool.length
      · rw [if_pos hIn, ← hOld, getD_eq_getElem?_getD, getElem?_eq_getElem hIn]
        rfl
      · rw [if_neg hIn, getElem?_eq_none (Nat.le_of_not_lt hIn)]
    · rw [if_neg hi]
  · rw [if_neg hOld]
    split <;> rfl

theorem setInput_of_not (h : ¬ (n < g.nodes.length ∧ slot < (g.node n).numInputs)) :
    g.setInput n slot v = g := by
  unfold setInput
  by_cases hn : n < g.nodes.length
  · have hSlot : ¬ slot < (g.node n).numInputs := fun hs => h ⟨hn, hs⟩
    simp [hSlot]
  · simp [hn]

theorem setInput_inputs (hOk : Ok g) (m : NodeId) : (g.setInput n slot v).inputs m =
      if m = n then (g.inputs n).set slot v else g.inputs m := by
  by_cases h : n < g.nodes.length ∧ slot < (g.node n).numInputs
  · obtain ⟨hn, hSlot⟩ := h
    apply ext_getElem?
    intro i
    rw [getElem?_inputs, setInput_node, setInput_pool n slot v hn hSlot, getElem?_set]
    by_cases hm : m = n
    · subst hm
      rw [if_pos rfl, getElem?_set, length_inputs hOk, getElem?_inputs]
      have hRange := hOk.inRange m
      by_cases hi : slot = i
      · subst hi
        have hIn : (g.node m).edgeOffset + slot < g.edgePool.length := by omega
        simp [hSlot, hIn, numInputs]
      · have hNe : ¬ (g.node m).edgeOffset + slot = (g.node m).edgeOffset + i := by omega
        rw [if_neg hi, if_neg hNe]
    · -- the written position lies in the slice of `n`, hence in no other
      rw [if_neg hm, getElem?_inputs]
      by_cases hi : i < (g.node m).numInputs
      · have hDis := hOk.disjoint n m (Ne.symm hm)
        have hNe : ¬ (g.node n).edgeOffset + slot = (g.node m).edgeOffset + i := by omega
        rw [if_neg hNe]
      · rw [if_neg hi, if_neg hi]
  · rw [setInput_of_not n slot v h]
    by_cases hm : m = n
    · subst hm
      rw [if_pos rfl, set_eq_of_length_le]
      rw [length_inputs hOk, numInputs]
      by_cases hn : m < g.nodes.length
      · exact Nat.le_of_not_lt fun hs => h ⟨hn, hs⟩
      · rw [node_of_le (Nat.le_of_not_lt hn)]
        exact Nat.zero_le _
    · rw [if_neg hm]

theorem Ok.setInput (hOk : Ok g) : Ok (g.setInput n slot v) := by
  constructor
  · rw [setInput_nodes, ← hOk.usesLength]
    simp only [Store.setInput, removeFromUses]
    split_ifs <;> simp
  · intro m
    have hRange := hOk.inRange m
    have hLen : (g.setInput n slot v).edgePool.length = g.edgePool.length := by
      simp only [Store.setInput, removeFromUses]
      split_ifs <;> simp
    rw [setInput_node, hLen]
    exact hRange
  · intro m k hmk
    rw [setInput_node, setInput_node]
    exact hOk.disjoint m k hmk

theorem setInput_usesOf (hOk : Ok g) {old : NodeId} (hn : n < g.nodes.length)
    (hOld : (g.inputs n)[slot]? = some old) (hNe : old ≠ v) (hv : v < g.nodes.length)
    (hOldLt : old < g.nodes.length) (d : NodeId) :
    (g.setInput n slot v).usesOf d =
      if d = v then g.usesOf v ++ [⟨n, slot⟩]
      else if d = old then (g.usesOf old).erase ⟨n, slot⟩
      else g.usesOf d := by
  obtain ⟨hSlot, hRead⟩ := (inputs_eq_some_iff hOk n slot old).mp hOld
  have hSlot' : slot < (g.node n).numInputs := hSlot
  have hGet : g.edgePool.getD ((g.node n).edgeOffset + slot) 0 = old := by
    simpa [input, hSlot'] using hRead
  have hLen := hOk.usesLength
  simp only [setInput, removeFromUses, hn, hSlot', hGet, hNe, hv, usesOf, if_true, if_false]
  rw [getD_modify, getD_modify, getD_modify, length_modify]
  have hvUses : v < g.uses.length := hLen ▸ hv
  have hOldUses : old < g.uses.length := hLen ▸ hOldLt
  by_cases hdv : d = v
  · simp [hdv, hvUses, Ne.symm hNe]
  · by_cases hdo : d = old
    · simp [hdo, hNe, hOldUses]
    · simp [hdv, hdo]

end SetInput

/-! ## What adding an edge does -/

section AppendInput

variable (n v : NodeId)

theorem appendInput_node (m : NodeId) : (g.appendInput n v).node m =
      if m = n ∧ n < g.nodes.length then
        { g.node n with
          edgeOffset := g.edgePool.length
          numInputs := ((g.node n).numInputs + 1) % 65536 }
      else g.node m := by
  by_cases hn : n < g.nodes.length
  · have hNodes : (g.appendInput n v).nodes = g.nodes.modify n fun nd =>
        { nd with
          edgeOffset := g.edgePool.length
          numInputs := ((g.node n).numInputs + 1) % 65536 } := by
      simp only [appendInput, hn, if_true]
      split <;> rfl
    rw [node, hNodes, getD_modify]
    rfl
  · simp [appendInput, hn]

theorem appendInput_length : (g.appendInput n v).nodes.length = g.nodes.length := by
  simp only [appendInput]
  split_ifs <;> simp

theorem appendInput_pool (hn : n < g.nodes.length) :
    (g.appendInput n v).edgePool = g.edgePool ++ (g.inputs n ++ [v]) := by
  simp only [appendInput, hn, if_true]
  split <;> simp

theorem appendInput_inputs (hOk : Ok g) (hn : n < g.nodes.length) (m : NodeId) :
    (g.appendInput n v).inputs m =
      if m = n then (g.inputs n ++ [v]).take (((g.node n).numInputs + 1) % 65536)
      else g.inputs m := by
  by_cases hm : m = n
  · subst hm
    rw [if_pos rfl, inputs, appendInput_node, if_pos ⟨rfl, hn⟩, appendInput_pool m v hn]
    simp
  rw [if_neg hm]
  apply inputs_congr
  · rw [appendInput_node, if_neg (by simp [hm])]
  · intro i hi
    have hRange := hOk.inRange m
    rw [appendInput_node, if_neg (by simp [hm]), appendInput_pool n v hn]
    exact getElem?_append_left (by omega)

theorem appendInput_usesOf (hOk : Ok g) (hn : n < g.nodes.length) (hv : v < g.nodes.length)
    (hNum : (g.node n).numInputs + 1 < 65536) (d : NodeId) :
    (g.appendInput n v).usesOf d =
      if d = v then g.usesOf v ++ [⟨n, (g.node n).numInputs⟩] else g.usesOf d := by
  have hSlot : (((g.node n).numInputs + 1) % 65536 + 65535) % 65536 = (g.node n).numInputs := by
    omega
  have hvUses : v < g.uses.length := hOk.usesLength ▸ hv
  simp only [appendInput, hn, hv, if_true, usesOf, hSlot]
  rw [getD_modify]
  by_cases hd : d = v
  · simp [hd, hvUses]
  · simp [hd]

theorem Ok.appendInput (hOk : Ok g) : Ok (g.appendInput n v) := by
  by_cases hn : n < g.nodes.length
  · have hLenPool : (g.appendInput n v).edgePool.length =
        g.edgePool.length + (g.node n).numInputs + 1 := by
      have hLen := length_inputs hOk n
      rw [appendInput_pool n v hn, length_append, length_append, hLen, numInputs, length_singleton]
      omega
    constructor
    · rw [appendInput_length, ← hOk.usesLength]
      simp only [Store.appendInput]
      split_ifs <;> simp
    · intro m
      have hRange := hOk.inRange m
      have hMod := mod_le ((g.node n).numInputs + 1) 65536
      rw [appendInput_node, hLenPool]
      by_cases hm : m = n ∧ n < g.nodes.length
      · rw [if_pos hm]
        dsimp only
        omega
      · rw [if_neg hm]
        omega
    · intro m k hmk
      have hm := hOk.inRange m
      have hk := hOk.inRange k
      rw [appendInput_node, appendInput_node]
      by_cases hmn : m = n ∧ n < g.nodes.length
      · have hkn : ¬ (k = n ∧ n < g.nodes.length) := fun h => hmk (hmn.1.trans h.1.symm)
        rw [if_pos hmn, if_neg hkn]
        exact Or.inr hk
      · by_cases hkn : k = n ∧ n < g.nodes.length
        · rw [if_neg hmn, if_pos hkn]
          exact Or.inl hm
        · rw [if_neg hmn, if_neg hkn]
          exact hOk.disjoint m k hmk
  · have hSame : g.appendInput n v = g := by
      simp [Store.appendInput, hn]
    rw [hSame]
    exact hOk

end AppendInput

/-! ## Calls that leave the edges alone -/

/-- Same pool, same use lists, same slices. -/
structure SameEdges (h g : Store) : Prop where
  pool : h.edgePool = g.edgePool
  uses : h.uses = g.uses
  length : h.nodes.length = g.nodes.length
  offset : ∀ n, (h.node n).edgeOffset = (g.node n).edgeOffset
  num : ∀ n, (h.node n).numInputs = (g.node n).numInputs

theorem SameEdges.inputs {h : Store} (hSame : SameEdges h g) (n : NodeId) :
    h.inputs n = g.inputs n := by
  rw [Store.inputs, hSame.pool, hSame.offset, hSame.num, Store.inputs]

theorem SameEdges.usesOf {h : Store} (hSame : SameEdges h g) (n : NodeId) :
    h.usesOf n = g.usesOf n := by
  rw [Store.usesOf, hSame.uses, Store.usesOf]

theorem SameEdges.ok {h : Store} (hSame : SameEdges h g) (hOk : Ok g) : Ok h := by
  constructor
  · rw [hSame.uses, hSame.length]
    exact hOk.usesLength
  · intro n
    rw [hSame.offset, hSame.num, hSame.pool]
    exact hOk.inRange n
  · intro n m hnm
    rw [hSame.offset, hSame.num, hSame.offset, hSame.num]
    exact hOk.disjoint n m hnm

/-- Changing a record without touching its slice. -/
theorem SameEdges.modify {h : Store} {n : NodeId} {f : NodeRec → NodeRec}
    (hPool : h.edgePool = g.edgePool) (hUses : h.uses = g.uses)
    (hNodes : h.nodes = g.nodes.modify n f)
    (hOffset : ∀ nd, (f nd).edgeOffset = nd.edgeOffset)
    (hNum : ∀ nd, (f nd).numInputs = nd.numInputs) : SameEdges h g := by
  have hNode : ∀ m, h.node m = if m = n ∧ n < g.nodes.length then f (g.node n) else g.node m := by
    intro m
    rw [node, hNodes, getD_modify]
    rfl
  constructor
  · exact hPool
  · exact hUses
  · rw [hNodes, length_modify]
  · intro m
    rw [hNode]
    split
    · rename_i hm
      rw [hOffset, hm.1]
    · rfl
  · intro m
    rw [hNode]
    split
    · rename_i hm
      rw [hNum, hm.1]
    · rfl

theorem sameEdges_refl (g : Store) : SameEdges g g :=
  ⟨rfl, rfl, rfl, fun _ => rfl, fun _ => rfl⟩

theorem sameEdges_killNode (n : NodeId) : SameEdges (g.killNode n) g := by
  by_cases hn : n < g.nodes.length
  · refine SameEdges.modify (n := n) (f := fun nd =>
        { nd with flags := nd.flags.set .dead, epoch := g.epoch + 1 })
      ?_ ?_ ?_ (fun _ => rfl) (fun _ => rfl) <;> simp [killNode, hn]
  · have hSame : g.killNode n = g := by
      simp [killNode, hn]
    rw [hSame]
    exact sameEdges_refl g

theorem sameEdges_attachSpecMeta (n : NodeId) (id : BitVec 32) :
    SameEdges (g.attachSpecMeta n id) g :=
  SameEdges.modify rfl rfl rfl (fun _ => rfl) (fun _ => rfl)

theorem sameEdges_appendFrameStateVobj (fs : Nat) (vobj : NodeId) :
    SameEdges (g.appendFrameStateVobj fs vobj) g := by
  unfold appendFrameStateVobj
  split
  · exact sameEdges_refl g
  · exact ⟨rfl, rfl, rfl, fun _ => rfl, fun _ => rfl⟩

theorem sameEdges_addFrameStateDesc (method pc caller : BitVec 32) (vobjs : List NodeId) :
    SameEdges (g.addFrameStateDesc method pc caller vobjs).1 g :=
  ⟨rfl, rfl, rfl, fun _ => rfl, fun _ => rfl⟩

theorem sameEdges_addSpecMeta (sm : SpecMeta) : SameEdges (g.addSpecMeta sm).1 g :=
  ⟨rfl, rfl, rfl, fun _ => rfl, fun _ => rfl⟩

theorem sameEdges_addDependency (dep : Dependency) : SameEdges (g.addDependency dep).1 g :=
  ⟨rfl, rfl, rfl, fun _ => rfl, fun _ => rfl⟩

theorem sameEdges_nextEpoch : SameEdges g.nextEpoch g :=
  ⟨rfl, rfl, rfl, fun _ => rfl, fun _ => rfl⟩

/-! ## Replacing a node -/

/-- One step of the rewiring loop. -/
def rewireUse (oldNode withNode : NodeId) (h : Store) (u : Use) : Store :=
  if u.user < h.nodes.length ∧ u.slot < (h.node u.user).numInputs ∧
      h.edgePool.getD ((h.node u.user).edgeOffset + u.slot) 0 = oldNode then
    h.setInput u.user u.slot withNode
  else h

theorem rewireUse_eq_or (oldNode withNode : NodeId) (h : Store) (u : Use) :
    rewireUse oldNode withNode h u = h ∨
      rewireUse oldNode withNode h u = h.setInput u.user u.slot withNode := by
  unfold rewireUse
  split
  · exact Or.inr rfl
  · exact Or.inl rfl

/-- What holds of the store before the loop and after every move of an edge holds after
the loop. -/
theorem foldl_rewireUse {P : Store → Prop} (oldNode withNode : NodeId)
    (hStep : ∀ h n slot, P h → P (h.setInput n slot withNode)) (us : List Use) (h : Store)
    (hStart : P h) : P (us.foldl (rewireUse oldNode withNode) h) := by
  induction us generalizing h with
  | nil => exact hStart
  | cons u us ih =>
    rw [foldl_cons]
    apply ih
    rcases rewireUse_eq_or oldNode withNode h u with hEq | hEq
    · rw [hEq]
      exact hStart
    · rw [hEq]
      exact hStep h u.user u.slot hStart

/-- A replacement that is refused changes nothing; one that is done is the loop followed
by a change of tags. -/
theorem replaceNode_cases (oldNode withNode : NodeId) : g.replaceNode oldNode withNode = (g, 0) ∨
      (oldNode < g.nodes.length ∧ withNode < g.nodes.length ∧
        (g.node withNode).isDead = false ∧ oldNode ≠ withNode ∧
        let rewired := (g.usesOf oldNode).foldl (rewireUse oldNode withNode) g
        g.replaceNode oldNode withNode = ({ rewired with
              epoch := g.epoch + 1
              nodes := rewired.nodes.modify oldNode fun nd =>
                { nd with
                  flags := (nd.flags.set .replaced).set .dead, epoch := g.epoch + 1 }
              replacements :=
                rewired.replacements ++ [⟨oldNode, withNode, g.epoch + 1⟩] }, g.epoch + 1)) := by
  by_cases h : oldNode < g.nodes.length ∧ withNode < g.nodes.length ∧
      (g.node withNode).isDead = false ∧ oldNode ≠ withNode
  · refine Or.inr ⟨h.1, h.2.1, h.2.2.1, h.2.2.2, ?_⟩
    simp only [replaceNode, if_pos h]
    rfl
  · left
    simp only [replaceNode, if_neg h]

theorem foldl_rewireUse_nodes (oldNode withNode : NodeId) :
    ((g.usesOf oldNode).foldl (rewireUse oldNode withNode) g).nodes = g.nodes := by
  apply foldl_rewireUse (P := fun h => h.nodes = g.nodes) oldNode withNode
  · intro h n slot hEq
    rw [setInput_nodes, hEq]
  · rfl

theorem Ok.replaceNode (hOk : Ok g) (oldNode withNode : NodeId) :
    Ok (g.replaceNode oldNode withNode).1 := by
  rcases replaceNode_cases (g := g) oldNode withNode with hSame | ⟨-, -, -, -, hEq⟩
  · rw [hSame]
    exact hOk
  · have hRewired : Ok ((g.usesOf oldNode).foldl (rewireUse oldNode withNode) g) :=
      foldl_rewireUse oldNode withNode (fun h n slot hh => hh.setInput n slot withNode) _ g hOk
    rw [hEq]
    refine SameEdges.ok ?_ hRewired
    exact SameEdges.modify rfl rfl rfl (fun _ => rfl) (fun _ => rfl)

theorem Ok.makeFrameState (hOk : Ok g) (method pc : BitVec 32) (locals : List NodeId)
    (caller : BitVec 32) (vobjs : List NodeId) :
    Ok (g.makeFrameState method pc locals caller vobjs).1 := by
  exact ((sameEdges_addFrameStateDesc method pc caller vobjs).ok hOk).makeRaw _ _ _ _ _

theorem Ok.step (hOk : Ok g) (c : Call) : Ok (g.step c) := by
  cases c with
  | makeFrameState method pc locals caller vobjs =>
    exact hOk.makeFrameState method pc locals caller vobjs
  | appendFrameStateVobj fs vobj => exact (sameEdges_appendFrameStateVobj fs vobj).ok hOk
  | addSpecMeta sm => exact (sameEdges_addSpecMeta sm).ok hOk
  | addDependency dep => exact (sameEdges_addDependency dep).ok hOk
  | attachSpecMeta n id => exact (sameEdges_attachSpecMeta n id).ok hOk
  | setInput n slot v => exact hOk.setInput n slot v
  | appendInput n v => exact hOk.appendInput n v
  | replaceNode oldNode withNode => exact hOk.replaceNode oldNode withNode
  | killNode n => exact (sameEdges_killNode n).ok hOk
  | nextEpoch => exact sameEdges_nextEpoch.ok hOk
  | _ => exact hOk.makeRaw _ _ _ _ _

theorem Ok.run (hOk : Ok g) (calls : List Call) : Ok (g.run calls) := by
  induction calls generalizing g with
  | nil => exact hOk
  | cons c calls ih => exact ih (hOk.step c)

theorem ok_fresh : Ok fresh := by
  apply Ok.makeRaw
  constructor
  · rfl
  · intro n
    exact Nat.le_refl 0
  · intro n m _
    exact Or.inl (Nat.le_refl 0)

end Store

end B2Compiler.Ir
