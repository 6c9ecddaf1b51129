import B2Compiler.Rbc.Verifier

/-!
# Two readings of a descriptor

The verifier scans descriptors with `scanField` and `scanMethodDesc`; everything that
runs or compiles a method reads them with `parseParams`, `parseReturn` and `paramCount`.
The parsers accept less than the scanner: a bare boolean, byte, char or short is
malformed for them, and so is a class name that contains a bracket or a parenthesis.
On all other descriptors the two readings are the same.
-/

namespace B2Compiler.Rbc

open List

/-! ## Texts of types -/

/-- The primitive types of a descriptor. -/
def primTypes : List (Char × RType) :=
  [('I', .int), ('Z', .int), ('B', .int), ('C', .int), ('S', .int), ('J', .long),
    ('F', .float), ('D', .double)]

/-- The types narrower than `int`. -/
def subIntTexts : List (List Char) := [['Z'], ['B'], ['C'], ['S']]

/-- A character that structures a descriptor. -/
def isStructural (c : Char) : Bool := c == '(' || c == ')' || c == '['

inductive ElemText : List Char → RType → Prop where
  | prim {c : Char} {t : RType} (h : (c, t) ∈ primTypes) : ElemText [c] t
  | name {n : List Char} (hne : n ≠ []) (hsemi : ';' ∉ n) : ElemText ('L' :: (n ++ [';'])) .ref

/-- The text of a type. -/
inductive TypeText : List Char → RType → Prop where
  | elem {p : List Char} {t : RType} (h : ElemText p t) : TypeText p t
  | array {p : List Char} {t : RType} (k : Nat) (h : ElemText p t) :
      TypeText (replicate (k + 1) '[' ++ p) .ref

/-- A type text both readings take: no bare type narrower than `int`, and no structural
character in the name of a class. -/
def PlainType (p : List Char) : Prop :=
  p ∉ subIntTexts ∧ ∀ c ∈ p.dropWhile (· == '['), isStructural c = false

instance (p : List Char) : Decidable (PlainType p) :=
  haveI : Decidable (∀ c ∈ p.dropWhile (· == '['), isStructural c = false) :=
    decidableBAll _ _
  inferInstanceAs (Decidable (p ∉ subIntTexts ∧ ∀ c ∈ p.dropWhile (· == '['),
    isStructural c = false))

theorem scanName_eq_some {s r : List Char} {t : RType} (h : scanName s = some (t, r)) :
    ∃ n, n ≠ [] ∧ ';' ∉ n ∧ s = n ++ ';' :: r ∧ t = .ref := by
  unfold scanName at h
  split at h
  · cases h
  rename_i hHead
  have hSplit := takeWhile_append_dropWhile (p := (· != ';')) (l := s)
  split at h
  · rename_i c rest hDrop
    injection h with h
    injection h with ht hr
    have hc : c = ';' := by
      have hNot := head?_dropWhile_not (· != ';') s
      rw [hDrop] at hNot
      simpa using hNot
    subst hc hr
    refine ⟨s.takeWhile (· != ';'), ?_, ?_, ?_, ht.symm⟩
    · intro hNil
      rw [hNil, nil_append, hDrop] at hSplit
      exact hHead _ hSplit.symm
    · intro hMem
      have hAll := all_takeWhile (p := (· != ';')) (l := s)
      have hOne := all_eq_true.mp hAll ';' hMem
      simp at hOne
    · rw [hDrop] at hSplit
      exact hSplit.symm
  · cases h

theorem scanField_eq_some {s r : List Char} {t : RType} (h : scanField s = some (t, r)) :
    ∃ p, s = p ++ r ∧ TypeText p t := by
  unfold scanField at h
  split at h
  all_goals try
    (injection h with h
     injection h with ht hr
     subst ht hr
     exact ⟨[_], rfl, .elem (.prim (by decide))⟩)
  · obtain ⟨n, hne, hsemi, rfl, rfl⟩ := scanName_eq_some h
    exact ⟨'L' :: (n ++ [';']), by simp, .elem (.name hne hsemi)⟩
  · rename_i rest
    -- the brackets behind the first one
    have hBrackets : ∃ k, rest = replicate k '[' ++ rest.dropWhile (· == '[') := by
      refine ⟨(rest.takeWhile (· == '[')).length, ?_⟩
      have hAll : rest.takeWhile (· == '[') = replicate (rest.takeWhile (· == '[')).length '[' := by
        apply eq_replicate_of_mem
        intro c hc
        have hOne := all_eq_true.mp (all_takeWhile (p := (· == '[')) (l := rest)) c hc
        simpa using hOne
      rw [← hAll]
      exact takeWhile_append_dropWhile.symm
    obtain ⟨k, hk⟩ := hBrackets
    have hArray : ∀ {e : List Char} {t' : RType}, ElemText e t' →
        rest.dropWhile (· == '[') = e ++ r →
        ∃ p, '[' :: rest = p ++ r ∧ TypeText p .ref := by
      intro e t' hElem hDrop
      refine ⟨replicate (k + 1) '[' ++ e, ?_, .array k hElem⟩
      rw [hDrop] at hk
      rw [hk, append_assoc, replicate_succ, cons_append]
    have hPrim : ∀ (c : Char) (t' : RType) {r' : List Char}, (c, t') ∈ primTypes →
        rest.dropWhile (· == '[') = c :: r' → some (RType.ref, r') = some (t, r) →
        ∃ p, '[' :: rest = p ++ r ∧ TypeText p t := by
      intro c t' r' hMem hDrop hSome
      injection hSome with hSome
      injection hSome with ht hr
      subst ht hr
      exact hArray (.prim hMem) hDrop
    split at h
    · rename_i name hDrop
      obtain ⟨n, hne, hsemi, rfl, rfl⟩ := scanName_eq_some h
      exact hArray (.name hne hsemi) (by rw [hDrop]; simp)
    · exact hPrim 'I' .int (by decide) (by assumption) h
    · exact hPrim 'J' .long (by decide) (by assumption) h
    · exact hPrim 'F' .float (by decide) (by assumption) h
    · exact hPrim 'D' .double (by decide) (by assumption) h
    · exact hPrim 'Z' .int (by decide) (by assumption) h
    · exact hPrim 'B' .int (by decide) (by assumption) h
    · exact hPrim 'C' .int (by decide) (by assumption) h
    · exact hPrim 'S' .int (by decide) (by assumption) h
    · cases h
  · cases h

theorem scanClassName_append (n r : List Char) (hsemi : ';' ∉ n) : scanClassName (n ++ ';' :: r) =
      if n.any isStructural then none else some r := by
  induction n with
  | nil => simp [scanClassName]
  | cons c n ih =>
    have hc : c ≠ ';' := fun hEq => hsemi (hEq ▸ mem_cons_self)
    have hn : ';' ∉ n := fun hMem => hsemi (mem_cons_of_mem _ hMem)
    have hStep : scanClassName (c :: (n ++ ';' :: r)) =
        if c = '(' ∨ c = ')' ∨ c = '[' then none else scanClassName (n ++ ';' :: r) := by
      rw [scanClassName]
      exact hc
    rw [cons_append, hStep, ih hn]
    by_cases hStruct : c = '(' ∨ c = ')' ∨ c = '['
    · have hBad : isStructural c = true := by
        simpa [isStructural, or_assoc] using hStruct
      simp [hStruct, hBad]
    · have hGood : isStructural c = false := by
        simp only [isStructural, Bool.or_eq_false_iff, beq_eq_false_iff_ne, ne_eq]
        tauto
      simp [hStruct, hGood]

theorem parseElemAt_append {p : List Char} {t : RType} (h : ElemText p t) (r : List Char)
    (voidOk subIntOk : Bool) :
    parseElemAt (p ++ r) voidOk subIntOk =
      if (subIntOk = true ∨ p ∉ subIntTexts) ∧ p.any isStructural = false then some (t, r)
      else none := by
  cases h with
  | @prim c t h =>
    simp only [primTypes, mem_cons, Prod.mk.injEq, not_mem_nil, or_false] at h
    rcases h with ⟨rfl, rfl⟩ | ⟨rfl, rfl⟩ | ⟨rfl, rfl⟩ | ⟨rfl, rfl⟩ | ⟨rfl, rfl⟩ | ⟨rfl, rfl⟩ |
      ⟨rfl, rfl⟩ | ⟨rfl, rfl⟩ <;>
      cases subIntOk <;> simp [parseElemAt, subIntTexts, isStructural]
  | @name n hne hsemi =>
    obtain ⟨c, n, rfl⟩ := exists_cons_of_ne_nil hne
    have hc : c ≠ ';' := fun hEq => hsemi (hEq ▸ mem_cons_self)
    have hParse : parseElemAt ('L' :: c :: (n ++ ';' :: r)) voidOk subIntOk =
        (scanClassName (c :: (n ++ ';' :: r))).map fun r => (.ref, r) := by
      simp [parseElemAt, hc]
    have hScan := scanClassName_append (c :: n) r hsemi
    rw [cons_append] at hScan
    have hText : 'L' :: (c :: n ++ [';']) ++ r = 'L' :: c :: (n ++ ';' :: r) := by simp
    have hChars : ('L' :: (c :: n ++ [';'])).any isStructural = (c :: n).any isStructural := by
      rw [any_cons, any_append]
      simp [isStructural]
    have hSub : 'L' :: (c :: n ++ [';']) ∉ subIntTexts := by
      simp [subIntTexts]
    rw [hText, hParse, hScan]
    rw [hChars]
    cases (c :: n).any isStructural with
    | true => simp
    | false =>
      simp only [Bool.false_eq_true, if_false]
      rw [if_pos ⟨Or.inr hSub, trivial⟩]
      rfl

theorem ElemText.head {p : List Char} {t : RType} (h : ElemText p t) :
    ∃ c q, p = c :: q ∧ c ≠ '[' := by
  cases h with
  | @prim c t h =>
    refine ⟨c, [], rfl, ?_⟩
    rintro rfl
    simp [primTypes] at h
  | name hne hsemi => exact ⟨'L', _, rfl, by decide⟩

/-- Both readings agree on the text of a type exactly when it is plain. -/
theorem parseTypeAt_append {p : List Char} {t : RType} (h : TypeText p t) (r : List Char)
    (voidOk : Bool) :
    parseTypeAt (p ++ r) voidOk false = if PlainType p then some (t, r) else none := by
  cases h with
  | elem h =>
    obtain ⟨c, q, rfl, hc⟩ := h.head
    have hParse : parseTypeAt (c :: q ++ r) voidOk false =
        parseElemAt (c :: q ++ r) voidOk false := by
      simp [parseTypeAt, hc]
    have hPlain : PlainType (c :: q) ↔
        (false = true ∨ c :: q ∉ subIntTexts) ∧ (c :: q).any isStructural = false := by
      simp [PlainType, hc]
    rw [hParse, parseElemAt_append h r voidOk false]
    by_cases hp : PlainType (c :: q)
    · rw [if_pos hp, if_pos (hPlain.mp hp)]
    · rw [if_neg hp, if_neg fun h' => hp (hPlain.mpr h')]
  | @array p t k h =>
    have hElem := parseElemAt_append h r false true
    obtain ⟨c, q, rfl, hc⟩ := h.head
    have hDrop : ∀ l : List Char, (replicate k '[' ++ (c :: l)).dropWhile (· == '[') = c :: l := by
      intro l
      rw [dropWhile_append_of_pos]
      · simp [hc]
      · intro x hx
        simp [eq_of_mem_replicate hx]
    have hParse : parseTypeAt (replicate (k + 1) '[' ++ (c :: q) ++ r) voidOk false =
        (parseElemAt (c :: q ++ r) false true).map fun x => (.ref, x.2) := by
      rw [append_assoc, replicate_succ, cons_append, parseTypeAt]
      rw [cons_append, hDrop]
    have hPlain : PlainType (replicate (k + 1) '[' ++ (c :: q)) ↔
        (true = true ∨ c :: q ∉ subIntTexts) ∧ (c :: q).any isStructural = false := by
      have hSub : replicate (k + 1) '[' ++ (c :: q) ∉ subIntTexts := by
        simp [subIntTexts, replicate_succ]
      have hDrop' : (replicate (k + 1) '[' ++ (c :: q)).dropWhile (· == '[') = c :: q := by
        rw [replicate_succ, cons_append, dropWhile_cons_of_pos (by decide), hDrop]
      simp only [PlainType, hDrop', hSub, not_false_eq_true, true_and, true_or, any_eq_false,
        Bool.not_eq_true]
    rw [hParse, hElem]
    by_cases hp : PlainType (replicate (k + 1) '[' ++ (c :: q))
    · rw [if_pos hp, if_pos (hPlain.mp hp)]
      rfl
    · rw [if_neg hp, if_neg fun h' => hp (hPlain.mpr h')]
      rfl

/-! ## Whole descriptors -/

def paramTexts : Nat → List Char → List (List Char)
  | _, [] => []
  | _, ')' :: _ => []
  | 0, _ :: _ => []
  | fuel + 1, c :: cs =>
    match scanField (c :: cs) with
    | some (_, rest) => (c :: cs).take ((c :: cs).length - rest.length) :: paramTexts fuel rest
    | none => []

/-- The type texts of a method descriptor: its parameters and its result. -/
def typeTexts (d : String) : List (List Char) :=
  match d.toList, scanParamTypes d with
  | '(' :: rest, some (_, ret) => paramTexts rest.length rest ++ [ret]
  | _, _ => []

/-- Every type of the descriptor is plain. -/
def PlainDesc (d : String) : Prop := ∀ p ∈ typeTexts d, PlainType p

instance (d : String) : Decidable (PlainDesc d) :=
  inferInstanceAs (Decidable (∀ p ∈ typeTexts d, PlainType p))

/-- The parsers walk the parameters the scanner found exactly when all are plain. -/
theorem walkParams_of_scanParams (fuel : Nat) (s r : List Char) (ts : List RType)
    (h : scanParams fuel s = some (ts, r)) :
    walkParams fuel s =
      if ∀ p ∈ paramTexts fuel s, PlainType p then some (ts, ')' :: r) else none := by
  induction fuel generalizing s ts with
  | zero =>
    cases s with
    | nil => cases h
    | cons c cs =>
      by_cases hc : c = ')'
      · subst hc
        simp only [scanParams, Option.some.injEq, Prod.mk.injEq] at h
        obtain ⟨rfl, rfl⟩ := h
        simp [walkParams, paramTexts]
      · simp [scanParams] at h
  | succ fuel ih =>
    cases s with
    | nil => cases h
    | cons c cs =>
      by_cases hc : c = ')'
      · subst hc
        simp only [scanParams, Option.some.injEq, Prod.mk.injEq] at h
        obtain ⟨rfl, rfl⟩ := h
        simp [walkParams, paramTexts]
      · rw [scanParams] at h
        swap
        · exact hc
        rw [walkParams, paramTexts]
        rotate_left
        · exact hc
        · exact hc
        obtain ⟨⟨t, rest⟩, hField, h⟩ := Option.bind_eq_some_iff.mp h
        obtain ⟨⟨ts', r'⟩, hRest, h⟩ := Option.bind_eq_some_iff.mp h
        injection h with h
        injection h with hts hr
        subst hts hr
        obtain ⟨p, hp, hText⟩ := scanField_eq_some hField
        have hTake : (c :: cs).take ((c :: cs).length - rest.length) = p := by
          rw [hp, length_append, Nat.add_sub_cancel, take_left]
        rw [hField]
        simp only [hTake]
        have hParse := parseTypeAt_append hText rest false
        rw [← hp] at hParse
        rw [hParse]
        by_cases hPlain : PlainType p
        · rw [if_pos hPlain]
          have hIh := ih rest ts' hRest
          simp only [Option.bind_eq_bind, Option.bind_some, hIh, forall_mem_cons, hPlain, true_and]
          by_cases hAll : ∀ q ∈ paramTexts fuel rest, PlainType q
          · rw [if_pos hAll, if_pos hAll]
            rfl
          · rw [if_neg hAll, if_neg hAll]
            rfl
        · rw [if_neg hPlain, if_neg fun hAll => hPlain (hAll p mem_cons_self)]
          rfl

section

variable {d : String} {ts : List RType} {ret : List Char}

theorem typeTexts_eq {rest : List Char} (hOpen : d.toList = '(' :: rest)
    (hScan : scanParamTypes d = some (ts, ret)) :
    typeTexts d = paramTexts rest.length rest ++ [ret] := by
  rw [typeTexts, hOpen, hScan]
  rfl

section

variable (hScan : scanParamTypes d = some (ts, ret))
include hScan

theorem opens_of_scanParamTypes :
    ∃ rest, d.toList = '(' :: rest ∧ scanParams rest.length rest = some (ts, ret) := by
  unfold scanParamTypes at hScan
  split at hScan
  · rename_i rest hOpen
    exact ⟨rest, hOpen, hScan⟩
  · cases hScan

/-- The result part of an accepted descriptor is void or the text of a type. -/
theorem ret_of_scanMethodDesc {rs : RetScan} (hDesc : scanMethodDesc d = some rs) :
    (ret = ['V'] ∧ rs = ⟨true, .bottom⟩) ∨ ∃ t, TypeText ret t ∧ rs = ⟨false, t⟩ := by
  rw [scanMethodDesc, hScan] at hDesc
  split at hDesc
  · rename_i hNone
    cases hNone
  · rename_i hSome
    injection hSome with hSome
    injection hSome with _ hRet
    injection hDesc with hDesc
    exact Or.inl ⟨hRet, hDesc.symm⟩
  · rename_i hSome
    injection hSome with hSome
    injection hSome with _ hRet
    subst hRet
    split at hDesc
    · rename_i t hField
      injection hDesc with hDesc
      obtain ⟨p, hp, hText⟩ := scanField_eq_some hField
      rw [append_nil] at hp
      exact Or.inr ⟨t, hp ▸ hText, hDesc.symm⟩
    · cases hDesc

/-- Reading the result part of an accepted descriptor. -/
theorem parseTypeAt_ret {rs : RetScan} (hDesc : scanMethodDesc d = some rs) :
    parseTypeAt ret true false = if PlainType ret then some (rs.type, []) else none := by
  rcases ret_of_scanMethodDesc hScan hDesc with ⟨rfl, rfl⟩ | ⟨t, hText, rfl⟩
  · decide
  · have hParse := parseTypeAt_append hText [] true
    rw [append_nil] at hParse
    exact hParse

end

theorem TypeText.ne_bottom {p : List Char} {t : RType} (h : TypeText p t) : t ≠ .bottom := by
  cases h with
  | elem h =>
    cases h with
    | prim h =>
      rintro rfl
      simp [primTypes] at h
    | name hne hsemi => decide
  | array k h => decide

/-- The parsers read an accepted descriptor as the scanner does exactly when it is
plain. -/
theorem parse_eq_scan_iff {rs : RetScan} (hScan : scanParamTypes d = some (ts, ret))
    (hDesc : scanMethodDesc d = some rs) :
    (parseParams d = some ts ∧ parseReturn d = rs.type) ↔ PlainDesc d := by
  obtain ⟨rest, hOpen, hParams⟩ := opens_of_scanParamTypes hScan
  have hWalk := walkParams_of_scanParams _ _ _ _ hParams
  have hRet := parseTypeAt_ret hScan hDesc
  have hPlain : PlainDesc d ↔ (∀ p ∈ paramTexts rest.length rest, PlainType p) ∧ PlainType ret := by
    rw [PlainDesc, typeTexts_eq hOpen hScan, forall_mem_append, forall_mem_singleton]
  rw [hPlain, parseParams, parseReturn, hOpen]
  simp only [hWalk]
  by_cases hAll : ∀ p ∈ paramTexts rest.length rest, PlainType p
  · simp only [if_pos hAll, hRet]
    by_cases hOne : PlainType ret
    · simp only [if_pos hOne]
      exact ⟨fun _ => ⟨hAll, hOne⟩, fun _ => ⟨rfl, trivial⟩⟩
    -- void is plain, so a type is dropped
    have hNe : rs.type ≠ .bottom := by
      rcases ret_of_scanMethodDesc hScan hDesc with ⟨rfl, -⟩ | ⟨t, hText, rfl⟩
      · exact absurd (by decide) hOne
      · exact hText.ne_bottom
    simp only [if_neg hOne]
    constructor
    · rintro ⟨-, hBot⟩
      exact absurd hBot.symm hNe
    · rintro ⟨-, hBad⟩
      exact absurd hBad hOne
  · simp only [if_neg hAll]
    constructor
    · rintro ⟨hBad, -⟩
      cases hBad
    · rintro ⟨hBad, -⟩
      exact absurd hBad hAll

end

end B2Compiler.Rbc
