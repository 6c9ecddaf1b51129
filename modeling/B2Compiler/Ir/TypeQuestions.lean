import B2Compiler.Ir.FrameTables
import B2Compiler.Ir.Trimming

/-!
# When the verifier comes back

The type of a bit cast or of a phi is made of the types of its operands, and the recursion
keeps no record of the nodes it has passed.  It comes back from a node exactly when the
questions it leads to form no cycle; everything else in the verifier is bounded.
-/

namespace B2Compiler.Ir.Image

open Relation (ReflTransGen TransGen)
open Lib.FinishOrder List Option

variable (im : Image)

/-- The operands whose types make up the type of a node. -/
def asked (n : NodeId) : List NodeId :=
  match (im.node n).kind with
  | .bitCast => (im.node n).inputs.take 1
  | .phi => (im.node n).inputs.tail
  | _ => []

def Asks (n v : NodeId) : Prop := v ∈ im.asked n

/-- The verifier returns a verdict, its search among virtual objects needs no more nesting
than there are nodes, and every question about a type has an answer. -/
structure Total (used : NodeId → Bool) : Prop where
  verify : ∃ r, im.verify used = some r
  cycles : ∀ k, im.nodeCount < k → im.vobjCycles k = im.checkVobjCycles
  types : ∀ n, ∃ f t, im.resultTypeOf f n = some t

variable {im}

theorem isSome_foldlM_join {ask : NodeId → Option RawType} {vs : List NodeId} {t₀ : RawType} :
    (vs.foldlM (fun t w => do return RawType.join t (← ask w)) t₀).isSome = true ↔
      ∀ v ∈ vs, (ask v).isSome = true := by
  induction vs generalizing t₀ with
  | nil => simp
  | cons v vs ih =>
    rw [foldlM_cons, forall_mem_cons]
    rcases hAsk : ask v with _ | t
    · simp
    · simpa using ih

/-- A node has a type exactly when its operands have, one level down. -/
theorem isSome_resultTypeOf_succ {f : Nat} {n : NodeId} :
    (im.resultTypeOf (f + 1) n).isSome = true ↔
      ∀ v, im.Asks n v → (im.resultTypeOf f v).isSome = true := by
  obtain ⟨below, hBelow, hEq⟩ := resultTypeOf_succ im f n
  rw [hEq, ← hBelow]
  unfold Image.resultTypeOf._f Asks asked
  dsimp only
  generalize im.node n = nd
  rcases nd with ⟨kind, flags, payload, payload2, constValue, specMeta, epoch, reserved, ins⟩
  cases kind
  case bitCast =>
    rcases ins with _ | ⟨v, vs⟩
    · simp
    · simp
  case phi =>
    rcases ins with _ | ⟨r, _ | ⟨v, vs⟩⟩
    · simp
    · simp
    show ((below.1 v).bind fun t =>
      vs.foldlM (fun t w => do return RawType.join t (← below.1 w)) t).isSome = true ↔
        ∀ w ∈ v :: vs, (below.1 w).isSome = true
    rw [forall_mem_cons]
    rcases hHead : below.1 v with _ | t
    · simp
    · rw [bind_some, isSome_foldlM_join]
      simp
  all_goals simp

theorem not_isSome_zero {n : NodeId} : ¬ (im.resultTypeOf 0 n).isSome = true := by
  intro h
  cases h

/-- A question leads to questions that have an answer with less fuel. -/
theorem isSome_of_transGen {f : Nat} {n v : NodeId} (h : (im.resultTypeOf f n).isSome = true)
    (hPath : TransGen im.Asks n v) : ∃ f' < f, (im.resultTypeOf f' v).isSome = true := by
  have hOne : ∀ {f a b}, (im.resultTypeOf f a).isSome = true → im.Asks a b →
      ∃ f' < f, (im.resultTypeOf f' b).isSome = true := by
    intro f a b ha hab
    rcases f with _ | f
    · exact absurd ha not_isSome_zero
    · exact ⟨f, Nat.lt_succ_self f, isSome_resultTypeOf_succ.mp ha b hab⟩
  induction hPath with
  | single hab => exact hOne h hab
  | tail _ hbc ih =>
    obtain ⟨f', hLt, hb⟩ := ih
    obtain ⟨f'', hLt', hc⟩ := hOne hb hbc
    exact ⟨f'', Nat.lt_trans hLt' hLt, hc⟩

/-- A question on a cycle has no answer, however much fuel there is. -/
theorem not_isSome_of_cycle {n : NodeId} (hCycle : TransGen im.Asks n n) (f : Nat) :
    ¬ (im.resultTypeOf f n).isSome = true := by
  induction f using Nat.strongRecOn with
  | ind f ih =>
    intro h
    obtain ⟨f', hLt, h'⟩ := isSome_of_transGen h hCycle
    exact ih f' hLt h'

theorem asks_lt {n v : NodeId} (h : im.Asks n v) : n < im.nodeCount := by
  by_contra hn
  have hDefault : im.node n = {} := by
    rw [node, getD_eq_getElem?_getD, getElem?_eq_none (Nat.le_of_not_lt hn)]
    rfl
  rw [Asks, asked, hDefault] at h
  cases h

/-- The verifier's fuel answers every question that leads to no cycle. -/
theorem isSome_typeOf {n : NodeId}
    (hAcyclic : ∀ v, ReflTransGen im.Asks n v → ¬ TransGen im.Asks v v) :
    (im.typeOf n).isSome = true := by
  have hUniv : ∀ a b, im.Asks a b → a ∈ range im.nodeCount :=
    fun a b hab => mem_range.mpr (asks_lt hab)
  have hEnd := fuel_suffices (P := fun f v => (im.resultTypeOf f v).isSome = true) hUniv
    (fun f a hNext => isSome_resultTypeOf_succ.mpr hNext) hAcyclic
  rw [length_range] at hEnd
  exact hEnd

/-! ## The verifier over answered questions -/

section Answered

variable {ty : NodeId → RawType}

theorem isSome_checkOperandType (hTy : ∀ n, im.typeOf n = some (ty n)) (n operand : NodeId)
    (want : RawType) (what : String) : (im.checkOperandType n operand want what).isSome = true := by
  unfold checkOperandType
  rw [hTy]
  rcases im.validId operand with _ | _
  · rfl
  · rcases hFits : RawType.isAssignable (ty operand) want with _ | _ <;> simp [hFits]

theorem isSome_mapM {α β : Type} {f : α → Option β} {l : List α}
    (h : ∀ a ∈ l, (f a).isSome = true) : (l.mapM f).isSome = true := by
  induction l with
  | nil => rfl
  | cons a l ih =>
    obtain ⟨hHead, hTail⟩ := forall_mem_cons.mp h
    obtain ⟨b, hb⟩ := isSome_iff_exists.mp hHead
    obtain ⟨bs, hbs⟩ := isSome_iff_exists.mp (ih hTail)
    simp [mapM_cons, hb, hbs]

variable (hTy : ∀ n, im.typeOf n = some (ty n))
include hTy

theorem isSome_checkOperandRows (n : NodeId)
    (rows : List (Nat × RawType × String)) : (im.checkOperandRows n rows).isSome = true := by
  obtain ⟨checked, hChecked⟩ := isSome_iff_exists.mp (isSome_mapM (l := rows) fun row _ =>
      isSome_checkOperandType hTy n (im.input n row.1) row.2.1 row.2.2)
  unfold checkOperandRows
  simp [hChecked]

theorem isSome_checkOperandTypes (n : NodeId) : (im.checkOperandTypes n).isSome = true := by
  have hRows := isSome_checkOperandRows hTy n
  unfold checkOperandTypes
  dsimp only
  split
  · split
    · exact hRows _
    · rfl
  · split
    · exact hRows _
    · rfl
  split
  · split
    · split <;> rfl
    · rfl
  · split
    · exact hRows _
    · rfl

theorem isSome_checkVector (n : NodeId) : (im.checkVector n).isSome = true := by
  choose rows hRows using fun rows =>
    isSome_iff_exists.mp (isSome_checkOperandRows hTy n rows)
  unfold checkVector
  simp only [hRows, hTy, bind_eq_bind, bind_some]
  split
  case h_10 =>
    rfl
  all_goals split_ifs <;> rfl

theorem isSome_verify (used : NodeId → Bool) : (im.verify used).isSome = true := by
  have hNode : ∀ n, (im.checkNode used n).isSome = true := by
    intro n
    obtain ⟨types, hTypes⟩ := isSome_iff_exists.mp (isSome_checkOperandTypes hTy n)
    unfold checkNode
    simp [hTypes]
  have hVector : ∀ n, (do return (← im.checkVector n) ++ im.checkTagged n :
      Option (List VerifyDiag)).isSome = true := by
    intro n
    obtain ⟨vector, hChecked⟩ := isSome_iff_exists.mp (isSome_checkVector hTy n)
    simp [hChecked]
  obtain ⟨nodes, hNodes⟩ := isSome_iff_exists.mp
    (isSome_mapM (l := range im.nodeCount) fun n _ => hNode n)
  obtain ⟨vectors, hVectors⟩ := isSome_iff_exists.mp
    (isSome_mapM (l := range im.nodeCount) fun n _ => hVector n)
  unfold verify verifyDiags
  extract_lets ids
  rw [hNodes, hVectors]
  rfl

end Answered

/-- Verification is total exactly on the graphs without a cycle of questions. -/
theorem total_iff (im : Image) (used : NodeId → Bool) :
    im.Total used ↔ ∀ n, ¬ TransGen im.Asks n n := by
  constructor
  · intro h n hCycle
    obtain ⟨f, t, ht⟩ := h.types n
    refine not_isSome_of_cycle hCycle f ?_
    rw [ht]
    rfl
  · intro hAcyclic
    have hAll : ∀ n, (im.typeOf n).isSome = true := fun n => isSome_typeOf fun v _ => hAcyclic v
    choose ty hTy using fun n => isSome_iff_exists.mp (hAll n)
    exact ⟨isSome_iff_exists.mp (isSome_verify hTy used), vobjCycles_spec.2,
      fun n => ⟨im.nodeCount + 1, ty n, hTy n⟩⟩

/-- A phi at a loop header that carries itself around the back edge, and a sum of it. -/
def selfPhi : List Call :=
  [.constantI 1, .make .loopBegin [0, 0] 0 0, .make .phi [2, 1] 0 0, .appendInput 3 3,
    .make .addI [3, 1] 0 0]

/-- The question about the operand of the sum is never answered. -/
theorem not_total_selfPhi : (Store.fresh.run selfPhi).verify = none ∧
      ¬ (Store.fresh.run selfPhi).image.Total
        fun n => !((Store.fresh.run selfPhi).usesOf n).isEmpty := by
  refine ⟨by decide +kernel, fun h => ?_⟩
  obtain ⟨f, t, ht⟩ := h.types 3
  have hAsks : 3 ∈ (Store.fresh.run selfPhi).image.asked 3 := by decide +kernel
  refine not_isSome_of_cycle (TransGen.single hAsks) f ?_
  rw [ht]
  rfl

end B2Compiler.Ir.Image
