import B2Compiler.Codegen.SwitchChain
import B2Compiler.Rbc.VerifierSound

/-!
# The readers of a switch agree

Each reader is brought to one view of an accepted payload: the list of its cases in table
order, a selector value and a target each.  The interpreter jumps to the target of the
first case with the selector's value, the projections of the switch node are numbered by
the same list, and the compares of the chain are the list itself.
-/

namespace B2Compiler.Codegen

open Rbc List
open Interp
open Passes
open Lib.X86 (State Outcome)

/-! ## Cases of a payload -/

/-- Where the interpreter goes. -/
def switchTarget (op : Op) (v : List (BitVec 32)) (sel : BitVec 32) : Nat :=
  if op = .tableswitch then tableTarget v sel else lookupTarget v sel

/-- The cases of a payload in table order. -/
def entries (op : Op) (v : List (BitVec 32)) : List (Int × Nat) :=
  if op = .tableswitch then
    (range ((v.getD 1 0).toInt - (v.getD 0 0).toInt + 1).toNat).map fun (i : Nat) =>
      ((v.getD 0 0).toInt + i, (v.getD (3 + i) 0).toNat)
  else
    (range (v.getD 0 0).toInt.toNat).map fun i =>
      ((v.getD (2 + 2 * i) 0).toInt, (v.getD (3 + 2 * i) 0).toNat)

def defaultOf (op : Op) (v : List (BitVec 32)) : Nat :=
  if op = .tableswitch then (v.getD 2 0).toNat else (v.getD 1 0).toNat

/-- The target of the first case with the selector's value. -/
def selected (es : List (Int × Nat)) (dflt : Nat) (sel : BitVec 32) : Nat :=
  match es.find? (fun e => e.1 == sel.toInt) with
  | some e => e.2
  | none => dflt

/-- A payload the verifier has no complaint about. -/
structure Accepted (n : Nat) (op : Op) (v : List (BitVec 32)) : Prop where
  shape : switchShape op v = []
  entries : switchEntryMsgs n op v = []

variable {m : Method} {ins : Ins} {n : Nat}

theorem accepted_of_msgs {v : List (BitVec 32)} (hPay : switchPayload m ins = some v)
    (h : switchMsgs m ins = []) : Accepted m.code.length ins.op v :=
  ⟨(switch_clean hPay h).1, (switch_clean hPay h).2⟩

/-- Search for the one index with a given value in a run of consecutive integers. -/
theorem find?_range_consecutive (low x : Int) (n : Nat) :
    (range n).find? (fun (i : Nat) => low + i == x) =
      if low ≤ x ∧ x < low + n then some (x - low).toNat else none := by
  split
  · rename_i h
    rw [find?_range_eq_some]
    refine ⟨by simp; omega, by simp; omega, fun j hj => ?_⟩
    simp only [Bool.not_eq_eq_eq_not, Bool.not_true, beq_eq_false_iff_ne]
    omega
  · rename_i h
    rw [find?_eq_none]
    intro i hi
    rw [mem_range] at hi
    simp only [beq_iff_eq]
    omega

/-- The interpreter goes to the target of the first case with the selector's value. -/
theorem switchTarget_eq_selected {op : Op} {v : List (BitVec 32)} (h : Accepted n op v)
    (sel : BitVec 32) : switchTarget op v sel = selected (entries op v) (defaultOf op v) sel := by
  unfold switchTarget selected entries defaultOf
  by_cases hOp : op = .tableswitch
  · obtain ⟨-, hOrder, -⟩ := table_shape hOp h.shape
    simp only [if_pos hOp, find?_map]
    rw [show ((fun e : Int × Nat => e.1 == sel.toInt) ∘ fun (i : Nat) =>
      ((v.getD 0 0).toInt + i, (v.getD (3 + i) 0).toNat)) =
      fun (i : Nat) => (v.getD 0 0).toInt + i == sel.toInt from rfl, find?_range_consecutive]
    unfold tableTarget
    by_cases hIn : (v.getD 0 0).toInt ≤ sel.toInt ∧ sel.toInt ≤ (v.getD 1 0).toInt
    · simp only [if_pos hIn]
      rw [if_pos (by omega)]
      rfl
    · simp only [if_neg hIn]
      rw [if_neg (by omega)]
      rfl
  · simp only [if_neg hOp, find?_map]
    unfold lookupTarget
    dsimp only
    have hSame : (fun i => decide (v.getD (2 + 2 * i) 0 = sel)) =
        ((fun e : Int × Nat => e.1 == sel.toInt) ∘ fun i =>
          ((v.getD (2 + 2 * i) 0).toInt, (v.getD (3 + 2 * i) 0).toNat)) := by
      funext i
      rw [Bool.eq_iff_iff, decide_eq_true_eq]
      simp only [Function.comp, beq_iff_eq, BitVec.toInt_inj]
    rw [← hSame]
    cases (range (v.getD 0 0).toInt.toNat).find? fun i =>
        decide (v.getD (2 + 2 * i) 0 = sel) with
    | none => rfl
    | some i => rfl

/-! ## Target words -/

/-- The target words of the cases and the word of the default. -/
def caseWords (op : Op) (v : List (BitVec 32)) : List (BitVec 32) :=
  if op = .tableswitch then v.drop 3
  else (range (v.getD 0 0).toInt.toNat).map fun i => v.getD (3 + 2 * i) 0

def defaultWord (op : Op) (v : List (BitVec 32)) : BitVec 32 :=
  if op = .tableswitch then v.getD 2 0 else v.getD 1 0

theorem toNat_defaultWord (op : Op) (v : List (BitVec 32)) :
    (defaultWord op v).toNat = defaultOf op v := by
  unfold defaultWord defaultOf
  split <;> rfl

/-- The tail of a list behind three words, by index. -/
theorem drop_eq_map_range (v : List (BitVec 32)) (n : Nat) (hn : v.length = 3 + n) :
    v.drop 3 = (range n).map fun i => v.getD (3 + i) 0 := by
  apply ext_getElem?
  intro i
  rw [getElem?_drop, getElem?_map]
  by_cases hi : i < n
  · rw [getElem?_range hi, getElem?_eq_getElem (by omega), Option.map_some,
      getD_eq_getElem?_getD, getElem?_eq_getElem (by omega), Option.getD_some]
  · rw [getElem?_eq_none (by omega), getElem?_eq_none (by simp; omega), Option.map_none]

theorem map_caseWords {op : Op} {v : List (BitVec 32)} (h : Accepted n op v) :
    (caseWords op v).map BitVec.toNat = (entries op v).map Prod.snd := by
  unfold caseWords entries
  by_cases hOp : op = .tableswitch
  · obtain ⟨hLen, hOrder, hSize⟩ := table_shape hOp h.shape
    rw [if_pos hOp, if_pos hOp, map_map,
      drop_eq_map_range v ((v.getD 1 0).toInt - (v.getD 0 0).toInt + 1).toNat (by omega),
      map_map]
    rfl
  · rw [if_neg hOp, if_neg hOp, map_map, map_map]
    rfl

/-- The verifier walks the words of the cases and of the default. -/
theorem caseWords_subset {op : Op} {v : List (BitVec 32)} (h : Accepted n op v) :
    ∀ w ∈ caseWords op v, w ∈ switchWords op v := by
  intro w hw
  unfold caseWords at hw
  unfold switchWords
  by_cases hOp : op = .tableswitch
  · rw [if_pos hOp] at hw ⊢
    have hTail : v.drop 3 = (v.drop 2).drop 1 := by rw [drop_drop]
    rw [hTail] at hw
    exact mem_of_mem_drop hw
  · obtain ⟨-, hNonneg, -⟩ := lookup_shape hOp h.shape
    have hCount : (v.getD 0 0).toInt.toNat = (v.getD 0 0).toNat := by
      have hLt := (v.getD 0 0).isLt
      have hCond := BitVec.toInt_eq_toNat_cond (v.getD 0 0)
      split at hCond <;> omega
    rw [if_neg hOp] at hw ⊢
    rw [hCount] at hw
    exact mem_append_left _ hw

theorem defaultWord_mem {op : Op} {v : List (BitVec 32)} (h : Accepted n op v) :
    defaultWord op v ∈ switchWords op v := by
  unfold defaultWord switchWords
  by_cases hOp : op = .tableswitch
  · obtain ⟨hLen, -, -⟩ := table_shape hOp h.shape
    rw [if_pos hOp, if_pos hOp, mem_iff_getElem?]
    refine ⟨0, ?_⟩
    rw [getElem?_drop, getD_eq_getElem?_getD, getElem?_eq_getElem (by omega), Option.getD_some]
  · rw [if_neg hOp, if_neg hOp]
    exact mem_append_right _ (mem_singleton.mpr rfl)

/-- Every case target and the default is a word the verifier walks. -/
theorem selected_mem {es : List (Int × Nat)} {dflt : Nat} (sel : BitVec 32) :
    selected es dflt sel ∈ es.map Prod.snd ++ [dflt] := by
  unfold selected
  cases hFind : es.find? (fun e => e.1 == sel.toInt) with
  | none => exact mem_append_right _ (mem_singleton.mpr rfl)
  | some e => exact mem_append_left _ (mem_map.mpr ⟨e, mem_of_find?_eq_some hFind, rfl⟩)

theorem targets_mem_words {op : Op} {v : List (BitVec 32)} (h : Accepted n op v) {t : Nat}
    (ht : t ∈ (entries op v).map Prod.snd ++ [defaultOf op v]) :
    t ∈ (switchWords op v).map BitVec.toNat := by
  rw [← map_caseWords h, ← toNat_defaultWord] at ht
  rcases mem_append.mp ht with ht | ht
  · obtain ⟨w, hw, rfl⟩ := mem_map.mp ht
    exact mem_map_of_mem (caseWords_subset h w hw)
  · rw [mem_singleton] at ht
    rw [ht]
    exact mem_map_of_mem (defaultWord_mem h)

theorem target_lt {op : Op} {v : List (BitVec 32)} (h : Accepted n op v) {t : Nat}
    (ht : t ∈ (entries op v).map Prod.snd ++ [defaultOf op v]) : t < n := by
  obtain ⟨w, hw, rfl⟩ := mem_map.mp (targets_mem_words h ht)
  have hValid := switchWords_valid h.entries w hw
  unfold targetPc at hValid
  split at hValid
  · cases hValid
  · rename_i hRange
    have hNat := Option.some.inj hValid
    omega

/-- The verifier pushes its types to the interpreter's target. -/
theorem switchTarget_mem_succBlocks {pc : Nat} {v : List (BitVec 32)} (hpc : pc < m.code.length)
    (hSig : (info (codeAt m pc).op).sig = .regCpBranch)
    (hPay : switchPayload m (codeAt m pc) = some v) (h : Accepted m.code.length (codeAt m pc).op v)
    (sel : BitVec 32) : switchTarget (codeAt m pc).op v sel ∈ succBlocks m pc := by
  rw [switchTarget_eq_selected h]
  obtain ⟨w, hw, hEq⟩ := mem_map.mp (targets_mem_words h (selected_mem sel))
  have hJump : selected (entries (codeAt m pc).op v) (defaultOf (codeAt m pc).op v) sel ∈
      jumpTargets m (codeAt m pc) := by
    unfold jumpTargets
    apply mem_append_right
    rw [if_pos hSig]
    unfold Rbc.switchTargets
    rw [hPay]
    simp only [if_pos h.shape]
    refine mem_filterMap.mpr ⟨w, hw, ?_⟩
    rw [switchWords_valid h.entries w hw, hEq]
  unfold succBlocks
  refine mem_foldl_pushSucc.mpr (Or.inr (mem_map.mpr ⟨_, mem_append_right _ hJump, ?_⟩))
  exact blockOf_of_leader (isLeader_of_jump hpc hJump)

/-! ## The graph builder -/

theorem checkTargets_ok {msg : String} {ws : List (BitVec 32)} {ts : List Nat}
    (h : Builder.checkTargets n msg ws = .ok ts) : ts = ws.map BitVec.toNat := by
  induction ws generalizing ts with
  | nil =>
    cases h
    rfl
  | cons w ws ih =>
    unfold Builder.checkTargets at h
    split at h
    · cases h
    cases hRest : Builder.checkTargets n msg ws with
    | error e =>
      rw [hRest] at h
      cases h
    | ok rest =>
      rw [hRest] at h
      cases h
      rw [ih hRest]
      rfl

/-- Words inside a code of fewer than `2^31` instructions pass. -/
theorem checkTargets_of_lt (hn : n < 2 ^ 31) {msg : String} {ws : List (BitVec 32)}
    (h : ∀ w ∈ ws, targetPc n w = some w.toNat) :
    Builder.checkTargets n msg ws = .ok (ws.map BitVec.toNat) := by
  have hSize : Builder.signedSize n = n := by
    unfold Builder.signedSize
    rw [BitVec.toInt_ofNat']
    exact Int.bmod_eq_of_le (by omega) (by omega)
  induction ws with
  | nil => rfl
  | cons w ws ih =>
    have hw := h w mem_cons_self
    unfold targetPc at hw
    split at hw
    · cases hw
    · rename_i hRange
      have hNat := Option.some.inj hw
      unfold Builder.checkTargets
      rw [if_neg (by omega), ih (fun w hw => h w (mem_cons_of_mem _ hw))]
      rfl

section

variable {v : List (BitVec 32)} (hPay : switchPayload m ins = some v)
  (h : Accepted m.code.length ins.op v)
include hPay h

theorem switchTargets_eq : ∃ msg, Builder.switchTargets m ins =
      (Builder.checkTargets m.code.length msg (caseWords ins.op v)).bind
        (Builder.withDefault m.code.length (defaultWord ins.op v)) := by
  obtain ⟨k, hCp, hKind, rfl⟩ := payload_entry hPay
  unfold Builder.switchTargets caseWords defaultWord
  rw [hCp]
  dsimp only
  by_cases hOp : ins.op = .tableswitch
  · obtain ⟨hLen, hOrder, hSize⟩ := table_shape hOp h.shape
    refine ⟨"tableswitch target out of range", ?_⟩
    rw [if_neg (not_not.mpr hKind), if_pos hOp, if_neg (by omega), if_neg (by omega),
      if_pos hOp, if_pos hOp]
  · obtain ⟨hLen, hNonneg, hSize⟩ := lookup_shape hOp h.shape
    refine ⟨"lookupswitch target out of range", ?_⟩
    rw [if_neg (not_not.mpr hKind), if_neg hOp, if_neg (by omega), if_neg hOp, if_neg hOp]

/-- When the builder takes a payload, its targets are the cases in table order. -/
theorem switchTargets_ok {ts : List Nat} {d : Nat}
    (hOk : Builder.switchTargets m ins = .ok (ts, d)) :
    ts = (entries ins.op v).map Prod.snd ∧ d = defaultOf ins.op v := by
  obtain ⟨msg, hEq⟩ := switchTargets_eq hPay h
  rw [hEq] at hOk
  cases hCheck : Builder.checkTargets m.code.length msg (caseWords ins.op v) with
  | error e =>
    rw [hCheck] at hOk
    cases hOk
  | ok ts' =>
    rw [hCheck] at hOk
    simp only [Except.bind, Builder.withDefault] at hOk
    split at hOk
    · cases hOk
    · cases hOk
      exact ⟨(checkTargets_ok hCheck).trans (map_caseWords h), toNat_defaultWord _ _⟩

/-- A code of fewer than `2^31` instructions takes every accepted payload. -/
theorem switchTargets_of_lt (hn : m.code.length < 2 ^ 31) :
    ∃ ts d, Builder.switchTargets m ins = .ok (ts, d) := by
  obtain ⟨msg, hEq⟩ := switchTargets_eq hPay h
  have hWords : ∀ w ∈ caseWords ins.op v, targetPc m.code.length w = some w.toNat :=
    fun w hw => switchWords_valid h.entries w (caseWords_subset h w hw)
  have hDefault : defaultOf ins.op v < m.code.length :=
    target_lt h (mem_append_right _ (mem_singleton.mpr rfl))
  refine ⟨(caseWords ins.op v).map BitVec.toNat, (defaultWord ins.op v).toNat, ?_⟩
  rw [hEq, checkTargets_of_lt hn hWords]
  simp only [Except.bind, Builder.withDefault]
  rw [if_neg (by rw [toNat_defaultWord]; omega)]

end

/-- The edge of the projection with an ordinal leads to the target with that index. -/
theorem edgeTarget_case {ts : List Nat} {i : Nat} (hi : i < ts.length) (d k : Nat) :
    Builder.edgeTarget ((ts.zipIdx k).map (fun (t, j) => (.switchCase j, t)) ++
      [(.switchDefault, d)]) (.switchCase (k + i)) = ts[i]? := by
  induction ts generalizing k i with
  | nil => cases hi
  | cons t ts ih =>
    cases i with
    | zero => simp [Builder.edgeTarget]
    | succ i =>
      have hTail : i < ts.length := by simpa using hi
      have hRest := ih hTail (k + 1)
      rw [show k + 1 + i = k + (i + 1) by omega] at hRest
      unfold Builder.edgeTarget at hRest ⊢
      rw [zipIdx_cons, map_cons, cons_append, find?_cons_of_neg (by simp),
        hRest, getElem?_cons_succ]

theorem edgeTarget_default (ts : List Nat) (d k : Nat) :
    Builder.edgeTarget ((ts.zipIdx k).map (fun (t, j) => (.switchCase j, t)) ++
      [(.switchDefault, d)]) .switchDefault = some d := by
  induction ts generalizing k with
  | nil => rfl
  | cons t ts ih =>
    have hRest := ih (k + 1)
    unfold Builder.edgeTarget at hRest ⊢
    rw [zipIdx_cons, map_cons, cons_append, find?_cons_of_neg (by simp), hRest]

theorem caseMatches_eq (op : Op) (v : List (BitVec 32)) :
    Builder.caseMatches op v = (entries op v).map Prod.fst := by
  unfold Builder.caseMatches entries
  by_cases hOp : op = .tableswitch
  · simp only [if_pos hOp, map_map]
    rfl
  · simp only [if_neg hOp, map_map]
    rfl

theorem edgeTarget_projection (es : List (Int × Nat)) (d : Nat) (sel : BitVec 32)
    (op : Op) (v : List (BitVec 32)) (hMatch : Builder.caseMatches op v = es.map Prod.fst) :
    Builder.edgeTarget (((es.map Prod.snd).zipIdx 0).map (fun (t, j) => (.switchCase j, t)) ++
      [(.switchDefault, d)]) (Builder.projection op v sel) = some (selected es d sel) := by
  unfold Builder.projection selected
  rw [hMatch, findIdx?_map]
  cases hIdx : es.findIdx? ((· == sel.toInt) ∘ Prod.fst) with
  | none =>
    have hNone : es.find? (fun e => e.1 == sel.toInt) = none := by
      rw [findIdx?_eq_none_iff] at hIdx
      rw [find?_eq_none]
      intro e he
      simpa using hIdx e he
    rw [hNone]
    exact edgeTarget_default _ _ _
  | some i =>
    obtain ⟨hi, -, -⟩ := findIdx?_eq_some_iff_getElem.mp hIdx
    have hFind : es.find? (fun e => e.1 == sel.toInt) = es[i]? := by
      rw [find?_eq_getElem?_findIdx]
      congr 1
      exact (findIdx?_eq_some_iff_findIdx_eq.mp hIdx).2
    rw [hFind, getElem?_eq_getElem hi]
    have hLen : i < (es.map Prod.snd).length := by simpa using hi
    have hEdge := edgeTarget_case hLen d 0
    rw [Nat.zero_add] at hEdge
    dsimp only
    rw [hEdge, getElem?_map, getElem?_eq_getElem hi, Option.map_some]

/-- The cases the instantiator parses are those of the payload, refused beyond the cap. -/
theorem parseSwitch_eq {v : List (BitVec 32)} (hPay : switchPayload m ins = some v)
    (h : Accepted m.code.length ins.op v) : parseSwitch m ins =
      if (entries ins.op v).length > kMaxSwitchCases then none
      else some ⟨(entries ins.op v).map fun e => (BitVec.ofInt 32 e.1, e.2),
        defaultOf ins.op v⟩ := by
  obtain ⟨k, hCp, hKind, rfl⟩ := payload_entry hPay
  unfold parseSwitch entries defaultOf
  rw [hCp]
  dsimp only
  by_cases hOp : ins.op = .tableswitch
  · obtain ⟨hLen, hOrder, hSize⟩ := table_shape hOp h.shape
    simp only [if_pos hOp, length_map, length_range, map_map]
    rw [if_neg (by omega), if_neg (by omega), if_neg (by omega)]
    by_cases hCap : ((k.ints.getD 1 0).toInt - (k.ints.getD 0 0).toInt + 1).toNat >
        kMaxSwitchCases
    · rw [if_pos (by omega), if_pos hCap]
    · rw [if_neg (by omega), if_neg hCap]
      rfl
  · obtain ⟨hLen, hNonneg, hSize⟩ := lookup_shape hOp h.shape
    simp only [if_neg hOp, length_map, length_range, map_map]
    rw [if_neg (by omega), if_neg (by omega)]
    split
    · rfl
    · simp only [Function.comp_def, BitVec.ofInt_toInt]

/-- Every selector value of an accepted payload is a 32-bit number. -/
theorem entry_range {op : Op} {v : List (BitVec 32)} (h : Accepted n op v) :
    ∀ e ∈ entries op v, (BitVec.ofInt 32 e.1).toInt = e.1 := by
  intro e he
  unfold entries at he
  by_cases hOp : op = .tableswitch
  · obtain ⟨-, hOrder, -⟩ := table_shape hOp h.shape
    rw [if_pos hOp] at he
    obtain ⟨i, hi, rfl⟩ := mem_map.mp he
    rw [mem_range] at hi
    have hLow := BitVec.le_toInt (v.getD 0 0)
    have hHigh := BitVec.toInt_lt (x := v.getD 1 0)
    rw [BitVec.toInt_ofInt]
    exact Int.bmod_eq_of_le (by omega) (by omega)
  · rw [if_neg hOp] at he
    obtain ⟨i, -, rfl⟩ := mem_map.mp he
    rw [BitVec.ofInt_toInt]

theorem target_eq_selected {es : List (Int × Nat)} {d : Nat} (sel : BitVec 32)
    (hRange : ∀ e ∈ es, (BitVec.ofInt 32 e.1).toInt = e.1) :
    (SwitchCases.mk (es.map fun e => (BitVec.ofInt 32 e.1, e.2)) d).target sel =
      selected es d sel := by
  induction es with
  | nil => rfl
  | cons e es ih =>
    have hEq : (BitVec.ofInt 32 e.1 == sel) = (e.1 == sel.toInt) := by
      rw [Bool.eq_iff_iff, beq_iff_eq, beq_iff_eq, ← BitVec.toInt_inj, hRange e mem_cons_self]
    have hRest := ih fun e he => hRange e (mem_cons_of_mem _ he)
    unfold SwitchCases.target selected at hRest ⊢
    simp only [map_cons, find?_cons, hEq] at hRest ⊢
    cases e.1 == sel.toInt with
    | true => rfl
    | false => exact hRest

/-- All readers of the switch at `pc` lead the selector to one instruction.  The builder
takes every payload of a code of fewer than `2^31` instructions, and the instantiator
refuses exactly the tables beyond its cap, whose methods stay in the interpreter. -/
structure SwitchAgrees (m : Method) (pc : Nat) (v : List (BitVec 32)) (sel : BitVec 32) :
    Prop where
  interp : ∀ (E : Env) (M : Machine) (f : Frame), (poolAt E f (codeAt m pc).immIdx).ints = v →
    (f.reg (codeAt m pc).aReg).asInt = sel →
    exec E M f (codeAt m pc) = jump M f (switchTarget (codeAt m pc).op v sel)
  verifier : switchTarget (codeAt m pc).op v sel ∈ succBlocks m pc
  builds : m.code.length < 2 ^ 31 → ∃ edges, Builder.switchEdges m (codeAt m pc) = .ok edges
  builder : ∀ edges, Builder.switchEdges m (codeAt m pc) = .ok edges →
    Builder.edgeTarget edges (Builder.projection (codeAt m pc).op v sel) =
        some (switchTarget (codeAt m pc).op v sel) ∧
      some (switchTarget (codeAt m pc).op v sel) ∈
        (Builder.succ m (Builder.blockOf m pc)).map ((Builder.starts m)[·]?)
  refused : parseSwitch m (codeAt m pc) = none ↔
    (entries (codeAt m pc).op v).length > kMaxSwitchCases
  tier1 : ∀ sw, parseSwitch m (codeAt m pc) = some sw →
    ∀ (c : BodyCtx) (real : Nat → Option (BitVec 32)) (s : State), c.ins = codeAt m pc →
    (c.expandSwitch real c.base sw.cases sw.defaultTarget).isSome →
    (c.slotValue s (codeAt m pc).a).asInt = sel →
    ∃ t s', real (switchTarget (codeAt m pc).op v sel) = some t ∧ s'.mem = s.mem ∧
      c.runSwitch real sw s = some (.jump t s')

/-- On every payload the verifier accepts and for every selector, the interpreter, the
verifier, the graph builder and the instantiated chain agree on where the switch goes. -/
theorem switch_agrees {m : Method} {pc : Nat} {v : List (BitVec 32)} (hpc : pc < m.code.length)
    (hOp : (codeAt m pc).op = .tableswitch ∨ (codeAt m pc).op = .lookupswitch)
    (hPay : switchPayload m (codeAt m pc) = some v) (hOk : switchMsgs m (codeAt m pc) = [])
    (sel : BitVec 32) : SwitchAgrees m pc v sel := by
  have hAcc := accepted_of_msgs hPay hOk
  have hSig : (info (codeAt m pc).op).sig = .regCpBranch := by
    rcases hOp with h | h <;> rw [h] <;> rfl
  have hTarget := switchTarget_eq_selected hAcc sel
  refine ⟨?_, switchTarget_mem_succBlocks hpc hSig hPay hAcc sel, ?_, ?_, ?_, ?_⟩
  · intro E M f hPool hSel
    unfold switchTarget
    rcases hOp with h | h
    · simp only [exec, h, hPool, hSel, if_true]
    · simp only [exec, h, hPool, hSel, reduceCtorEq, if_false]
  · intro hn
    obtain ⟨ts, d, hTs⟩ := switchTargets_of_lt hPay hAcc hn
    exact ⟨_, by rw [Builder.switchEdges, hTs]; rfl⟩
  · intro edges hEdges
    unfold Builder.switchEdges at hEdges
    cases hTs : Builder.switchTargets m (codeAt m pc) with
    | error e =>
      rw [hTs] at hEdges
      cases hEdges
    | ok r =>
      obtain ⟨ts, d⟩ := r
      rw [hTs] at hEdges
      cases hEdges
      obtain ⟨rfl, rfl⟩ := switchTargets_ok hPay hAcc hTs
      have hAll : Builder.allTargets m (codeAt m pc) =
          (entries (codeAt m pc).op v).map Prod.snd ++ [defaultOf (codeAt m pc).op v] := by
        rw [Builder.allTargets, hTs]
      rw [hTarget]
      refine ⟨edgeTarget_projection _ _ sel _ v (caseMatches_eq _ _), ?_⟩
      rw [Builder.succ_switch hpc hSig (fun t ht => target_lt hAcc (hAll ▸ ht)), hAll]
      exact mem_map_of_mem (selected_mem sel)
  · rw [parseSwitch_eq hPay hAcc]
    split
    all_goals
      rename_i hCap
      simp [hCap]
  · intro sw hSw c real s hIns hCode hSel
    rw [parseSwitch_eq hPay hAcc] at hSw
    split at hSw
    · cases hSw
    cases hSw
    obtain ⟨bytes, hBytes⟩ := Option.isSome_iff_exists.mp hCode
    obtain ⟨t, s', hReal, hMem, hRun⟩ := runSwitch_eq hBytes s
    rw [hIns, hSel, target_eq_selected sel (entry_range hAcc)] at hReal
    rw [hTarget]
    exact ⟨t, s', hReal, hMem, hRun⟩

/-- `switch (7) { … }` in which every case and the default return. -/
def switchMethod (op : Op) (v : List (BitVec 32)) : Method where
  flags := 0x0008
  numRegs := 1
  cp := [{ kind := .switchTable, ints := v }]
  code := [⟨.iconst, 0, 0, 0, 7⟩, ⟨op, 0, 0, 0, 0⟩, ⟨.returnVoid, 0, 0, 0, 0⟩,
    ⟨.returnVoid, 0, 0, 0, 0⟩]

/-- The two largest selectors go to 3, everything else to 2. -/
def lastTwo : List (BitVec 32) := [0x7FFFFFFE, 0x7FFFFFFF, 2, 3, 3]

theorem lastTwo_agrees : (verify (switchMethod .tableswitch lastTwo)).ok = true ∧
      (SwitchAgrees (switchMethod .tableswitch lastTwo) 1 lastTwo 0x7FFFFFFF ∧
        switchTarget .tableswitch lastTwo 0x7FFFFFFF = 3) ∧
      SwitchAgrees (switchMethod .tableswitch lastTwo) 1 lastTwo 0x80000000 ∧
        switchTarget .tableswitch lastTwo 0x80000000 = 2 :=
  ⟨by decide +kernel,
    ⟨switch_agrees (by decide) (by decide) (by decide) (by decide +kernel) _, by decide⟩,
    switch_agrees (by decide) (by decide) (by decide) (by decide +kernel) _, by decide⟩

/-- A table of 1025 cases. -/
def wideTable : List (BitVec 32) := 0 :: 1024 :: 2 :: replicate 1025 3

/-- The verifier accepts a table of 1025 cases and the interpreter takes its cases, but
the instantiator has no chain for it. -/
theorem wideTable_refused : (verify (switchMethod .tableswitch wideTable)).ok = true ∧
      switchTarget .tableswitch wideTable 1024 = 3 ∧
      ¬ ∃ sw, parseSwitch (switchMethod .tableswitch wideTable)
          (codeAt (switchMethod .tableswitch wideTable) 1) = some sw ∧
        sw.target 1024 = switchTarget .tableswitch wideTable 1024 := by
  refine ⟨by decide +kernel, by decide +kernel, ?_⟩
  rintro ⟨sw, hSome, -⟩
  have hNone : parseSwitch (switchMethod .tableswitch wideTable)
      (codeAt (switchMethod .tableswitch wideTable) 1) = none := by decide +kernel
  rw [hNone] at hSome
  cases hSome

end B2Compiler.Codegen
