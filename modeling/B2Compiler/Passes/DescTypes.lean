import B2Compiler.Ir.Node
import B2Compiler.Rbc.Descriptor

/-!
# What the graph builder takes from descriptors

The builder types fields with a scan of its own, entry parameters with `parseParams`,
call results with `parseReturn`, and it passes to a call as many arguments as
`paramCount` asks for, at most those of the argument window.
-/

namespace B2Compiler.Passes

open Rbc Ir List

def rtypeToIr : RType → IRType
  | .int => .int
  | .long => .long
  | .float => .float
  | .double => .double
  | .null => .null
  | .ref => .ref
  | .bottom => .bottom

/-- Type of a field descriptor; `bottom` when it is malformed.  Text behind the type is
not looked at. -/
def fieldDescType (s : List Char) : RType :=
  match s with
  | 'I' :: _ | 'Z' :: _ | 'B' :: _ | 'C' :: _ | 'S' :: _ => .int
  | 'J' :: _ => .long
  | 'F' :: _ => .float
  | 'D' :: _ => .double
  | 'L' :: ';' :: _ => .bottom
  | 'L' :: rest => if ';' ∈ rest then .ref else .bottom
  | '[' :: rest =>
    match rest.dropWhile (· == '[') with
    | 'L' :: name => if ';' ∈ name then .ref else .bottom
    | 'I' :: _ | 'Z' :: _ | 'B' :: _ | 'C' :: _ | 'S' :: _ | 'J' :: _ | 'F' :: _ | 'D' :: _ =>
      .ref
    | _ => .bottom
  | _ => .bottom

def hasReceiver : Op → Bool
  | .invokevirtual | .invokespecial | .invokeinterface
  | .invokevirtualQuick | .invokespecialQuick | .invokeinterfaceQuick => true
  | _ => false

/-- Arguments a call node gets, for a window of `b` registers. -/
def callArgCount (op : Op) (descriptor : String) (b : Nat) : Nat :=
  min (paramCount descriptor + if hasReceiver op then 1 else 0) b

def callResultType (descriptor : String) : IRType := rtypeToIr (parseReturn descriptor)

/-- Types of the parameter nodes at the entry of a method: the receiver first, one local
slot each; a malformed list of parameters is an empty one. -/
def entryParamTypes (m : Method) : List IRType :=
  ((if m.isStatic then [] else [IRType.ref]) ++
    ((parseParams m.descriptor).getD []).map rtypeToIr).take m.numLocals

/-- The builder types a field as the verifier does. -/
theorem fieldDescType_eq {s rest : List Char} {t : RType} (h : scanField s = some (t, rest)) :
    fieldDescType s = t := by
  obtain ⟨p, rfl, hText⟩ := scanField_eq_some h
  have hElem : ∀ {p : List Char} {t : RType}, ElemText p t → ∀ r, fieldDescType (p ++ r) = t := by
    intro p t hText r
    cases hText with
    | prim hPrim =>
      simp only [primTypes, mem_cons, Prod.mk.injEq, not_mem_nil, or_false] at hPrim
      rcases hPrim with ⟨rfl, rfl⟩ | ⟨rfl, rfl⟩ | ⟨rfl, rfl⟩ | ⟨rfl, rfl⟩ | ⟨rfl, rfl⟩ |
        ⟨rfl, rfl⟩ | ⟨rfl, rfl⟩ | ⟨rfl, rfl⟩ <;> rfl
    | @name n hne hsemi =>
      obtain ⟨c, n, rfl⟩ := exists_cons_of_ne_nil hne
      have hc : c ≠ ';' := fun hEq => hsemi (hEq ▸ mem_cons_self)
      simp [fieldDescType, hc]
  cases hText with
  | elem hText => exact hElem hText rest
  | @array p t k hText =>
    have hOne := hElem hText rest
    obtain ⟨c, q, rfl, hc⟩ := hText.head
    have hDrop : (replicate k '[' ++ (c :: q) ++ rest).dropWhile (· == '[') = c :: q ++ rest := by
      rw [append_assoc, dropWhile_append_of_pos]
      · simp [hc]
      · intro x hx
        simp [eq_of_mem_replicate hx]
    have hArray : fieldDescType (replicate (k + 1) '[' ++ (c :: q) ++ rest) =
        match c :: q ++ rest with
        | 'L' :: name => if ';' ∈ name then .ref else .bottom
        | 'I' :: _ | 'Z' :: _ | 'B' :: _ | 'C' :: _ | 'S' :: _ | 'J' :: _ | 'F' :: _
        | 'D' :: _ => .ref
        | _ => .bottom := by
      rw [← hDrop, replicate_succ]
      rfl
    rw [hArray]
    cases hText with
    | prim hPrim =>
      simp only [primTypes, mem_cons, Prod.mk.injEq, not_mem_nil, or_false] at hPrim
      rcases hPrim with ⟨rfl, rfl⟩ | ⟨rfl, rfl⟩ | ⟨rfl, rfl⟩ | ⟨rfl, rfl⟩ | ⟨rfl, rfl⟩ |
        ⟨rfl, rfl⟩ | ⟨rfl, rfl⟩ | ⟨rfl, rfl⟩ <;> rfl
    | name hne hsemi => simp

end B2Compiler.Passes
