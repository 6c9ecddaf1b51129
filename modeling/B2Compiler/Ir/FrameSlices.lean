import B2Compiler.Ir.Store

/-!
# The virtual objects of frame states

Every descriptor owns a slice of one flat table.  For a caller a descriptor has a list
of its own, and the two calls that touch the table are calls on that list alone.
-/

namespace B2Compiler.Ir

open List

/-! ## Slices of a list -/

/-- `l` stands in `vs` from place `off` on. -/
def Slice {α : Type} (vs : List α) (off : Nat) (l : List α) : Prop :=
  ∃ a c, vs = a ++ (l ++ c) ∧ a.length = off

section Slices

variable {α : Type} {vs l : List α} {off p : Nat}

/-- An element more, in front of place `p`. -/
def insertAt (vs : List α) (p : Nat) (v : α) : List α := vs.take p ++ v :: vs.drop p

theorem Slice.le_length (h : Slice vs off l) : off + l.length ≤ vs.length := by
  obtain ⟨a, c, rfl, rfl⟩ := h
  simp

theorem Slice.take_drop (h : Slice vs off l) : (vs.drop off).take l.length = l := by
  obtain ⟨a, c, rfl, rfl⟩ := h
  rw [drop_left, take_left]

theorem Slice.insert_behind (h : Slice vs off l) (hp : off + l.length ≤ p) (v : α) :
    Slice (insertAt vs p v) off l := by
  obtain ⟨a, c, rfl, rfl⟩ := h
  refine ⟨a, insertAt c (p - (a.length + l.length)) v, ?_, rfl⟩
  obtain ⟨k, rfl⟩ := Nat.exists_eq_add_of_le hp
  have hTake : take (a.length + l.length + k) (a ++ (l ++ c)) = a ++ (l ++ c.take k) := by
    rw [Nat.add_assoc, take_length_add_append, take_length_add_append]
  have hDrop : drop (a.length + l.length + k) (a ++ (l ++ c)) = c.drop k := by
    rw [Nat.add_assoc, drop_length_add_append, drop_length_add_append]
  rw [insertAt, hTake, hDrop, insertAt, Nat.add_sub_cancel_left]
  simp

theorem Slice.insert_before (h : Slice vs off l) (hp : p ≤ off) (v : α) :
    Slice (insertAt vs p v) (off + 1) l := by
  obtain ⟨a, c, rfl, rfl⟩ := h
  refine ⟨insertAt a p v, c, ?_, ?_⟩
  · rw [insertAt, take_append_of_le_length hp, drop_append_of_le_length hp, insertAt]
    simp
  · simp only [insertAt, length_append, length_take, length_cons, length_drop]
    omega

theorem Slice.insert_end (h : Slice vs off l) (v : α) :
    Slice (insertAt vs (off + l.length) v) off (l ++ [v]) := by
  obtain ⟨a, c, rfl, rfl⟩ := h
  refine ⟨a, c, ?_, rfl⟩
  rw [insertAt, ← append_assoc, ← length_append, take_left, drop_left]
  simp

end Slices

/-! ## The two calls -/

inductive FrameCall where
  | addFrameStateDesc (method pc caller : BitVec 32) (vobjs : List NodeId)
  | appendFrameStateVobj (fs : Nat) (vobj : NodeId)
  deriving Repr

def FrameCall.step (g : Store) : FrameCall → Store
  | .addFrameStateDesc method pc caller vobjs => (g.addFrameStateDesc method pc caller vobjs).1
  | .appendFrameStateVobj fs vobj => g.appendFrameStateVobj fs vobj

/-- What a call is for: a list more, or one list longer by its last element. -/
def FrameCall.lists (ls : List (List NodeId)) : FrameCall → List (List NodeId)
  | .addFrameStateDesc _ _ _ vobjs => ls ++ [vobjs]
  | .appendFrameStateVobj fs vobj => ls.modify fs (· ++ [vobj])

/-- A descriptor has its list in its slice. -/
structure Holds (vs : List NodeId) (d : FrameStateDesc) (l : List NodeId) : Prop where
  count : d.vobjCount = l.length
  slice : Slice vs d.vobjOffset l

/-- The slice of `d` ends where that of `e` starts, or earlier.  An empty slice has a place
too. -/
def Before (d e : FrameStateDesc) : Prop := d.vobjOffset + d.vobjCount ≤ e.vobjOffset

/-- The table holds the lists, no slice reaching into another. -/
structure Laid (g : Store) (ls : List (List NodeId)) : Prop where
  length : g.fsDesc.length = ls.length
  holds : ∀ (i : Nat) d l, g.fsDesc[i]? = some d → ls[i]? = some l → Holds g.fsVobjs d l
  apart : ∀ (i j : Nat) d e, i ≠ j → g.fsDesc[i]? = some d → g.fsDesc[j]? = some e →
    Before d e ∨ Before e d

variable {g : Store} {ls : List (List NodeId)}

theorem Laid.frameStateVobjs (h : Laid g ls) (id : Nat) :
    g.frameStateVobjs id = ls.getD id [] := by
  rw [Store.frameStateVobjs, getD_eq_getElem?_getD]
  by_cases hId : id < ls.length
  · have hDesc : id < g.fsDesc.length := h.length ▸ hId
    obtain ⟨hCount, hSlice⟩ :=
      h.holds id _ _ (getElem?_eq_getElem hDesc) (getElem?_eq_getElem hId)
    rw [getElem?_eq_getElem hDesc, getElem?_eq_getElem hId]
    dsimp only
    rw [hCount, if_pos hSlice.le_length, hSlice.take_drop]
    rfl
  · rw [getElem?_eq_none (Nat.not_lt.mp hId), getElem?_eq_none (h.length ▸ Nat.not_lt.mp hId)]
    rfl

theorem Laid.ends (h : Laid g ls) {i : Nat} {d : FrameStateDesc} (hd : g.fsDesc[i]? = some d) :
    d.vobjOffset + d.vobjCount ≤ g.fsVobjs.length := by
  have hi : i < ls.length := h.length ▸ (List.getElem?_eq_some_iff.mp hd).1
  obtain ⟨hCount, hSlice⟩ := h.holds i d _ hd (getElem?_eq_getElem hi)
  exact hCount ▸ hSlice.le_length

/-- The new slice stands behind all the others. -/
theorem Laid.addFrameStateDesc (h : Laid g ls) (method pc caller : BitVec 32)
    (vobjs : List NodeId) :
    Laid (g.addFrameStateDesc method pc caller vobjs).1 (ls ++ [vobjs]) := by
  let new : FrameStateDesc :=
    { method, pc, caller, vobjOffset := g.fsVobjs.length, vobjCount := vobjs.length }
  have hCases : ∀ (i : Nat) d, (g.fsDesc ++ [new])[i]? = some d →
      g.fsDesc[i]? = some d ∨ (i = g.fsDesc.length ∧ d = new) := by
    intro i d hd
    rw [getElem?_append] at hd
    split at hd
    · exact .inl hd
    · obtain ⟨hi, rfl⟩ := List.getElem?_eq_some_iff.mp hd
      rw [length_singleton] at hi
      exact .inr ⟨by omega, getElem_singleton ..⟩
  constructor
  · simp [Store.addFrameStateDesc, h.length]
  · intro i d l hd hl
    rcases hCases i d hd with hOld | ⟨rfl, rfl⟩
    · have hi : i < ls.length := h.length ▸ (List.getElem?_eq_some_iff.mp hOld).1
      rw [getElem?_append_left hi] at hl
      obtain ⟨hCount, a, c, hEq, hOff⟩ := h.holds i d l hOld hl
      refine ⟨hCount, a, c ++ vobjs, ?_, hOff⟩
      show g.fsVobjs ++ vobjs = _
      simp [hEq]
    · rw [h.length, getElem?_concat_length] at hl
      cases hl
      exact ⟨rfl, g.fsVobjs, [], by rw [append_nil]; rfl, rfl⟩
  · intro i j d e hNe hd he
    rcases hCases i d hd with hOld | ⟨rfl, rfl⟩
    · rcases hCases j e he with hOld' | ⟨rfl, rfl⟩
      · exact h.apart i j d e hNe hOld hOld'
      · exact .inl (h.ends hOld)
    · rcases hCases j e he with hOld' | ⟨rfl, rfl⟩
      · exact .inr (h.ends hOld')
      · exact absurd rfl hNe

/-- How the descriptor at place `i` changes when the slice of `d`, at place `fs`, grows. -/
def grown (fs : Nat) (d : FrameStateDesc) (i : Nat) (e : FrameStateDesc) : FrameStateDesc :=
  if i = fs then { e with vobjCount := e.vobjCount + 1 }
  else if d.vobjOffset + d.vobjCount ≤ e.vobjOffset then { e with vobjOffset := e.vobjOffset + 1 }
  else e

theorem appendFrameStateVobj_eq {fs : Nat} {d : FrameStateDesc} (hd : g.fsDesc[fs]? = some d)
    (vobj : NodeId) : g.appendFrameStateVobj fs vobj =
      { g with
        fsVobjs := insertAt g.fsVobjs (d.vobjOffset + d.vobjCount) vobj
        fsDesc := g.fsDesc.mapIdx (grown fs d) } := by
  rw [Store.appendFrameStateVobj, hd]
  rfl

/-- A slice that starts before the new element ends before the slice that grows. -/
theorem Laid.before (h : Laid g ls) {fs i : Nat} {d e : FrameStateDesc}
    (hd : g.fsDesc[fs]? = some d) (he : g.fsDesc[i]? = some e) (hi : i ≠ fs)
    (hLow : ¬ d.vobjOffset + d.vobjCount ≤ e.vobjOffset) : Before e d :=
  (h.apart i fs e d hi he hd).resolve_right hLow

theorem Laid.appendFrameStateVobj (h : Laid g ls) (fs : Nat) (vobj : NodeId) :
    Laid (g.appendFrameStateVobj fs vobj) (ls.modify fs (· ++ [vobj])) := by
  rcases hd : g.fsDesc[fs]? with _ | d
  · have hOut : ls.length ≤ fs := h.length ▸ List.getElem?_eq_none_iff.mp hd
    rw [Store.appendFrameStateVobj, hd, modify_eq_self hOut]
    exact h
  rw [appendFrameStateVobj_eq hd]
  constructor
  · simp [h.length]
  · intro i e' l' he' hl'
    rw [getElem?_mapIdx, Option.map_eq_some_iff] at he'
    rw [getElem?_modify, Option.map_eq_map, Option.map_eq_some_iff] at hl'
    obtain ⟨e, he, rfl⟩ := he'
    obtain ⟨l, hl, rfl⟩ := hl'
    obtain ⟨hLen, hSlice⟩ := h.holds i e l he hl
    unfold grown
    by_cases hi : i = fs
    · subst hi
      rw [he] at hd
      cases hd
      rw [if_pos rfl, if_pos rfl, hLen]
      refine ⟨?_, hSlice.insert_end vobj⟩
      rw [length_append]
      rfl
    · rw [if_neg hi, if_neg (Ne.symm hi)]
      split_ifs with hLow
      · exact ⟨hLen, hSlice.insert_before hLow vobj⟩
      · have hBefore : Before e d := h.before hd he hi hLow
        unfold Before at hBefore
        exact ⟨hLen, hSlice.insert_behind (by omega) vobj⟩
  · intro i j e' f' hNe he' hf'
    rw [getElem?_mapIdx, Option.map_eq_some_iff] at he' hf'
    obtain ⟨e, he, rfl⟩ := he'
    obtain ⟨f, hf, rfl⟩ := hf'
    have hApart := h.apart i j e f hNe he hf
    have hE := h.before hd he
    have hF := h.before hd hf
    unfold grown Before at *
    by_cases hi : i = fs
    · subst hi
      cases he.symm.trans hd
      rw [if_pos rfl, if_neg hNe.symm]
      split_ifs <;> dsimp only <;> omega
    · rw [if_neg hi]
      by_cases hj : j = fs
      · subst hj
        cases hf.symm.trans hd
        rw [if_pos rfl]
        split_ifs <;> dsimp only <;> omega
      · rw [if_neg hj]
        split_ifs <;> (try dsimp only) <;> omega

/-- Each list is read back as it was built, in every sequence of the calls. -/
theorem frameStateVobjs_run (calls : List FrameCall) (id : Nat) :
    (calls.foldl FrameCall.step Store.fresh).frameStateVobjs id =
      (calls.foldl FrameCall.lists []).getD id [] := by
  have hRun : ∀ {g ls}, Laid g ls → Laid (calls.foldl FrameCall.step g)
      (calls.foldl FrameCall.lists ls) := by
    induction calls with
    | nil => exact fun h => h
    | cons call calls ih =>
      intro g ls h
      cases call with
      | addFrameStateDesc method pc caller vobjs =>
        exact ih (h.addFrameStateDesc method pc caller vobjs)
      | appendFrameStateVobj fs vobj => exact ih (h.appendFrameStateVobj fs vobj)
  have hNone : Store.fresh.fsDesc = [] := rfl
  have hFresh : Laid Store.fresh [] := ⟨rfl, by simp, by simp [hNone]⟩
  exact (hRun hFresh).frameStateVobjs id

end B2Compiler.Ir
