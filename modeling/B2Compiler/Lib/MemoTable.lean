import Mathlib.Data.List.Induction

/-!
# Memo tables under an equality of their own

A table remembers one key for every class of keys its equality identifies: a request
for a key that equals a remembered one is answered by the remembered one.  The equality
is any transitive test; it need not be reflexive, and a key that does not equal itself
is remembered again at each request.  The key a table answers with is the first one
ever requested that equals the key asked for.
-/

namespace B2Compiler.Lib

open List

variable {α : Type*} {eq : α → α → Bool}

def requestKey (eq : α → α → Bool) (keys : List α) (v : α) : List α :=
  match keys.find? (eq · v) with
  | some _ => keys
  | none => keys ++ [v]

/-- The keys after a sequence of requests, in the order they entered. -/
def requestKeys (eq : α → α → Bool) (requests : List α) : List α :=
  requests.foldl (requestKey eq) []

theorem requestKeys_append (requests : List α) (v : α) :
    requestKeys eq (requests ++ [v]) = requestKey eq (requestKeys eq requests) v := by
  simp only [requestKeys, foldl_append, foldl_cons, foldl_nil]

/-- A key that is already there changes no answer. -/
theorem find?_requestKey (hTrans : ∀ a b c, eq a b = true → eq b c = true → eq a c = true)
    (keys : List α) (v w : α) :
    (requestKey eq keys v).find? (eq · w) = (keys ++ [v]).find? (eq · w) := by
  cases hFound : keys.find? (eq · v) with
  | none => simp only [requestKey, hFound]
  | some k =>
    simp only [requestKey, hFound, find?_append]
    cases hKeys : keys.find? (eq · w) with
    | some k' => simp
    | none =>
      have hMem : k ∈ keys := mem_of_find?_eq_some hFound
      have hEq : eq k v = true := by simpa using find?_some hFound
      have hNone : eq k w = false := by
        simpa using find?_eq_none.mp hKeys k hMem
      have hNew : eq v w = false := by
        cases hCase : eq v w with
        | false => rfl
        | true => rw [hTrans k v w hEq hCase] at hNone; exact absurd hNone (by decide)
      simp [hNew]

/-- The answer of the table is the first request that equals the key. -/
theorem find?_requestKeys (hTrans : ∀ a b c, eq a b = true → eq b c = true → eq a c = true)
    (requests : List α) (w : α) :
    (requestKeys eq requests).find? (eq · w) = requests.find? (eq · w) := by
  induction requests using reverseRecOn with
  | nil => rfl
  | append_singleton requests v ih =>
    rw [requestKeys_append, find?_requestKey hTrans, find?_append, find?_append, ih]

end B2Compiler.Lib
