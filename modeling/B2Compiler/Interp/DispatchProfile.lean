import B2Compiler.Interp.SiteCalls
import B2Compiler.Lib.Histogram

/-!
# Dispatch profiles

The profile of a call site counts the calls that were dispatched there.  Over the trips of a
session the calls of each site are collected in order; as long as no exception raised by a push
is caught, the profile is the histogram of these calls: a total of all of them and, for calls
that go by the class of their receiver, a count for each of the first three classes, frozen when
a fourth one arrives.
-/

namespace B2Compiler.Interp

open Rbc Lib List

/-! ## Profiles -/

def siteProfile (ps : List (List DispatchSiteProfile)) (mIdx site : Nat) : DispatchSiteProfile :=
  (ps.getD mIdx []).getD site {}

def Flow.machine? : Flow → Option Machine
  | .running m | .ended _ m => some m
  | .undefined => none

namespace DispatchSiteProfile

/-- Class and count of the entries in use. -/
def counted (sp : DispatchSiteProfile) : List (Nat × Nat) :=
  (sp.entries.filter fun e => e.count ≠ 0).map fun e => (e.recvClass, e.count)

/-- Sum of the counts of the entries. -/
def entrySum (sp : DispatchSiteProfile) : Nat := (sp.entries.map DispatchEntry.count).sum

end DispatchSiteProfile

/-- Highest count of a profile. -/
def kDispatchSaturated : Nat := 2 ^ 32 - 1

/-- Receiver classes of the calls of a site, in order. -/
def receiverClasses (log : List Callee) : List Nat := log.filterMap Callee.openedFor

def Callee.byReceiver : Callee → Prop
  | receiver cls _ => cls ≠ kDispatchNoRecvClass
  | static _ => False
  | builtin => True

/-- A call the instruction names the method of. -/
def Callee.byTarget : Callee → Prop
  | static t => t ≠ kDispatchNoTarget
  | receiver _ _ | builtin => False

/-- The profile is exact for the calls dispatched at its site. -/
structure ProfileExact (log : List Callee) (sp : DispatchSiteProfile) : Prop where
  /-- Every dispatch is in the total. -/
  total : sp.count = min kDispatchSaturated log.length
  slots : sp.entries.length = kMaxDispatchProfileEntries
  /-- A site of virtual or interface calls counts its first three classes, in the order in which
  they appeared, until a fourth one appears. -/
  receivers : (∀ c ∈ log, c.byReceiver) → sp.counted = Histogram.tally kDispatchSaturated
      (Histogram.admitted kMaxDispatchProfileEntries [] (receiverClasses log)) ∧
    (sp.megamorphic = true ↔ kMaxDispatchProfileEntries < Histogram.distinct (receiverClasses log))
  /-- A site of calls with a static target has one entry. -/
  statics : (∀ c ∈ log, c.byTarget) → sp.counted = (if log = [] then []
      else [(kDispatchNoRecvClass, min kDispatchSaturated log.length)]) ∧
    sp.megamorphic = false
  /-- Below saturation the entries add up to the frames opened, but for a megamorphic site. -/
  sum : (∀ c ∈ log, c.byReceiver) ∨ (∀ c ∈ log, c.byTarget) → sp.megamorphic = false →
    log.length ≤ kDispatchSaturated → sp.entrySum = log.countP Callee.framed

/-! ## The profile of a site -/

theorem siteProfile_recordDispatch (m : Machine) (mIdx site : Nat) (kind : DispatchSiteKind)
    (r t i j : Nat) :
    siteProfile (recordDispatch mIdx site kind r t m).dispatchProfiles i j =
      if i = mIdx ∧ j = site then recordAt kind r t (siteProfile m.dispatchProfiles i j)
      else siteProfile m.dispatchProfiles i j := by
  unfold siteProfile recordDispatch
  dsimp only
  rw [getD_modify_growWith]
  by_cases hi : i = mIdx
  · subst hi
    rw [if_pos rfl, getD_modify_growWith]
    by_cases hj : j = site
    · subst hj
      rw [if_pos rfl, if_pos ⟨rfl, rfl⟩]
    · rw [if_neg hj, if_neg (fun h => hj h.2)]
  · rw [if_neg hi, if_neg (fun h => hi h.1)]

theorem bump32_min (n : Nat) :
    bump32 (min kDispatchSaturated n) = min kDispatchSaturated (n + 1) := by
  unfold bump32 kDispatchSaturated
  split <;> omega

/-- The free entries behind `n` used ones. -/
def freeEntries (n : Nat) : List DispatchEntry :=
  replicate (kMaxDispatchProfileEntries - n) {}

structure Shows (sp : DispatchSiteProfile) (h : Histogram Nat) (filled : List DispatchEntry) :
    Prop where
  megamorphic : sp.megamorphic = h.overflowed
  entries : sp.entries = filled ++ freeEntries filled.length
  length : filled.length ≤ kMaxDispatchProfileEntries
  used : ∀ e ∈ filled, e.count ≠ 0 ∧ e.count ≤ kDispatchSaturated
  classes : (filled.map DispatchEntry.recvClass).Nodup
  slots : filled.map (fun e => (e.recvClass, e.count)) = h.slots

/-- The entry of a class is refreshed. -/
def refresh (r t : Nat) (e : DispatchEntry) : DispatchEntry :=
  if e.recvClass = r then { e with target := t, count := bump32 e.count } else e

section Recording

variable {sp : DispatchSiteProfile} {h : Histogram Nat} {filled : List DispatchEntry}
  {kind : DispatchSiteKind} {r t : Nat}

theorem findIdx_refresh (rest : List DispatchEntry) (hused : ∀ e ∈ filled, e.count ≠ 0)
    (hclasses : (filled.map DispatchEntry.recvClass).Nodup)
    (hr : r ∈ filled.map DispatchEntry.recvClass) :
    ∃ i, (filled ++ rest).findIdx? (fun e => decide (e.count ≠ 0 ∧ e.recvClass = r)) = some i ∧
      (filled ++ rest).modify i (fun e => { e with target := t, count := bump32 e.count }) =
        filled.map (refresh r t) ++ rest := by
  induction filled with
  | nil => cases hr
  | cons e es ih =>
    rw [map_cons, nodup_cons] at hclasses
    rw [cons_append, findIdx?_cons, map_cons]
    by_cases hclass : e.recvClass = r
    · refine ⟨0, ?_, ?_⟩
      · rw [decide_eq_true ⟨hused e (mem_cons_self ..), hclass⟩]
        rfl
      have hothers : es.map (refresh r t) = es := by
        refine (map_congr_left fun e' he' => ?_).trans (map_id es)
        rw [refresh, if_neg]
        · rfl
        · intro hsame
          rw [← hclass] at hsame
          exact hclasses.1 (hsame ▸ mem_map_of_mem he')
      rw [hothers, refresh, if_pos hclass]
      rfl
    · have hin : r ∈ es.map DispatchEntry.recvClass := by
        rw [map_cons, mem_cons] at hr
        exact hr.resolve_left (Ne.symm hclass)
      obtain ⟨i, hi, hmodify⟩ := ih (fun e' he' => hused e' (mem_cons_of_mem _ he'))
        hclasses.2 hin
      refine ⟨i + 1, ?_, ?_⟩
      · rw [decide_eq_false (fun hboth => hclass hboth.2), hi]
        rfl
      · rw [modify_succ_cons, hmodify, refresh, if_neg hclass]
        rfl

theorem findIdx_none {p : DispatchEntry → Bool} (rest : List DispatchEntry)
    (hfilled : ∀ e ∈ filled, p e = false) :
    (filled ++ rest).findIdx? p = (rest.findIdx? p).map (· + filled.length) := by
  rw [findIdx?_append, findIdx?_eq_none_iff.mpr hfilled, Option.none_or]

theorem recordReceiver_mem (hs : Shows sp h filled) (hr : r ∈ filled.map DispatchEntry.recvClass) :
    recordReceiver r t sp.entries =
      some (filled.map (refresh r t) ++ freeEntries filled.length) := by
  obtain ⟨i, hi, hmodify⟩ := findIdx_refresh (t := t) (freeEntries filled.length)
    (fun e he => (hs.used e he).1) hs.classes hr
  unfold recordReceiver
  rw [hs.entries, hi]
  dsimp only
  rw [hmodify]

theorem recordReceiver_new (hs : Shows sp h filled) (hr : r ∉ filled.map DispatchEntry.recvClass) :
    recordReceiver r t sp.entries =
      if filled.length < kMaxDispatchProfileEntries then
        some (filled ++ [⟨r, t, 1⟩] ++ freeEntries (filled.length + 1))
      else none := by
  have hother : ∀ e ∈ filled, decide (e.count ≠ 0 ∧ e.recvClass = r) = false := by
    intro e he
    exact decide_eq_false fun hboth => hr (hboth.2 ▸ mem_map_of_mem he)
  have hused : ∀ e ∈ filled, decide (e.count = 0) = false := fun e he =>
    decide_eq_false (hs.used e he).1
  have hfree : (freeEntries filled.length).findIdx?
      (fun e => decide (e.count ≠ 0 ∧ e.recvClass = r)) = none := by
    refine findIdx?_eq_none_iff.mpr fun e he => ?_
    rw [eq_of_mem_replicate he]
    exact decide_eq_false fun hboth => hboth.1 rfl
  unfold recordReceiver
  rw [hs.entries, findIdx_none _ hother, hfree, Option.map_none]
  dsimp only
  rw [findIdx_none _ hused]
  by_cases hroom : filled.length < kMaxDispatchProfileEntries
  · have hsucc : freeEntries filled.length = {} :: freeEntries (filled.length + 1) := by
      have hone : kMaxDispatchProfileEntries - filled.length =
          kMaxDispatchProfileEntries - (filled.length + 1) + 1 := by omega
      rw [freeEntries, hone]
      rfl
    have hfirst : (({} : DispatchEntry) :: freeEntries (filled.length + 1)).findIdx?
        (fun e => decide (e.count = 0)) = some 0 := rfl
    rw [if_pos hroom, hsucc, hfirst, Option.map_some]
    dsimp only
    rw [Nat.zero_add, set_append_right _ _ (Nat.le_refl _), Nat.sub_self, set_cons_zero,
      append_assoc]
    rfl
  · have hnone : freeEntries filled.length = [] := by
      have hzero : kMaxDispatchProfileEntries - filled.length = 0 := by omega
      rw [freeEntries, hzero]
      rfl
    rw [if_neg hroom, hnone]
    rfl

theorem Shows.observe (hs : Shows sp h filled) (hr : r ≠ kDispatchNoRecvClass) :
    ∃ filled', Shows (recordAt kind r t sp)
      (Histogram.observe kMaxDispatchProfileEntries kDispatchSaturated h r) filled' := by
  have hkeys : h.slots.map Prod.fst = filled.map DispatchEntry.recvClass := by
    rw [← hs.slots, map_map]
    rfl
  have hlength : h.slots.length = filled.length := by
    rw [← hs.slots, length_map]
  unfold recordAt Histogram.observe
  dsimp only
  rw [if_neg hr, ← hs.megamorphic, hkeys, hlength]
  by_cases hmega : sp.megamorphic = true
  · rw [if_pos hmega, if_pos hmega]
    exact ⟨filled, hs.megamorphic, hs.entries, hs.length, hs.used, hs.classes, hs.slots⟩
  rw [if_neg hmega, if_neg hmega]
  by_cases hin : r ∈ filled.map DispatchEntry.recvClass
  · have hsame : DispatchEntry.recvClass ∘ refresh r t = DispatchEntry.recvClass := by
      funext e
      rw [Function.comp_apply, refresh]
      split <;> rfl
    rw [recordReceiver_mem hs hin, if_pos hin]
    refine ⟨filled.map (refresh r t), rfl, ?_, ?_, ?_, ?_, ?_⟩
    · rw [length_map]
    · rw [length_map]
      exact hs.length
    · intro e' he'
      obtain ⟨e, he, rfl⟩ := mem_map.mp he'
      obtain ⟨hpos, hle⟩ := hs.used e he
      unfold refresh
      split
      · unfold bump32
        unfold kDispatchSaturated at hle ⊢
        dsimp only
        split <;> omega
      · exact ⟨hpos, hle⟩
    · rw [map_map, hsame]
      exact hs.classes
    · dsimp only
      rw [← hs.slots, map_map, map_map]
      apply map_congr_left
      intro e he
      obtain ⟨_, hle⟩ := hs.used e he
      rw [Function.comp_apply, Function.comp_apply, refresh, Histogram.bump]
      by_cases hclass : e.recvClass = r
      · rw [if_pos hclass, if_pos hclass, Prod.mk.injEq]
        refine ⟨rfl, ?_⟩
        have hcount : e.count = min kDispatchSaturated e.count := by omega
        rw [hcount, bump32_min, ← hcount]
      · rw [if_neg hclass, if_neg hclass]
  · rw [recordReceiver_new hs hin, if_neg hin]
    by_cases hroom : filled.length < kMaxDispatchProfileEntries
    · rw [if_pos hroom, if_pos hroom]
      refine ⟨filled ++ [⟨r, t, 1⟩], rfl, ?_, ?_, ?_, ?_, ?_⟩
      · rw [length_append, length_singleton]
      · rw [length_append, length_singleton]
        exact hroom
      · intro e he
        rcases mem_append.mp he with he | he
        · exact hs.used e he
        · have hone : (1 : Nat) ≠ 0 ∧ 1 ≤ kDispatchSaturated := by decide
          rw [mem_singleton.mp he]
          exact hone
      · rw [map_append, map_singleton, ← concat_eq_append]
        exact hs.classes.concat hin
      · dsimp only
        rw [map_append, hs.slots, map_singleton]
    · rw [if_neg hroom, if_neg hroom]
      exact ⟨filled, rfl, hs.entries, hs.length, hs.used, hs.classes, hs.slots⟩

/-- A count-only record leaves the entries alone. -/
theorem Shows.tick (hs : Shows sp h filled) :
    Shows (recordAt kind kDispatchNoRecvClass kDispatchNoTarget sp) h filled :=
  ⟨hs.megamorphic, hs.entries, hs.length, hs.used, hs.classes, hs.slots⟩

theorem shows_fresh : Shows {} {} [] where
  megamorphic := rfl
  entries := rfl
  length := Nat.zero_le _
  used _ he := absurd he not_mem_nil
  classes := nodup_nil
  slots := rfl

theorem length_recordReceiver {entries entries' : List DispatchEntry}
    (h : recordReceiver r t entries = some entries') : entries'.length = entries.length := by
  unfold recordReceiver at h
  split at h
  · cases h
    exact length_modify ..
  · split at h
    · cases h
      exact length_set
    · cases h

/-- A record adds one to the total, keeps the number of entries and never clears the mark. -/
theorem recordAt_spec (kind : DispatchSiteKind) (r t : Nat) (sp : DispatchSiteProfile) :
    (recordAt kind r t sp).count = bump32 sp.count ∧
      (recordAt kind r t sp).entries.length = sp.entries.length ∧
      (sp.megamorphic = true → (recordAt kind r t sp).megamorphic = true) := by
  unfold recordAt
  dsimp only
  split
  · split
    · exact ⟨rfl, rfl, id⟩
    · exact ⟨rfl, length_modify .., id⟩
  split
  · exact ⟨rfl, rfl, id⟩
  · split
    · rename_i hrecord
      exact ⟨rfl, length_recordReceiver hrecord, id⟩
    · exact ⟨rfl, rfl, fun _ => rfl⟩

/-- Recording a call to a method the instruction names counts it in the first entry. -/
theorem recordAt_static (kind : DispatchSiteKind) {n t' : Nat} (ht : t ≠ kDispatchNoTarget)
    (hentries : sp.entries = ⟨kDispatchNoRecvClass, t', min kDispatchSaturated n⟩ ::
      freeEntries 1) :
    (recordAt kind kDispatchNoRecvClass t sp).entries =
        ⟨kDispatchNoRecvClass, t, min kDispatchSaturated (n + 1)⟩ :: freeEntries 1 ∧
      (recordAt kind kDispatchNoRecvClass t sp).megamorphic = sp.megamorphic := by
  unfold recordAt
  dsimp only
  rw [if_pos rfl, if_neg ht, hentries]
  refine ⟨?_, rfl⟩
  dsimp only
  rw [modify_zero_cons, bump32_min]

end Recording

/-! ## Profile and calls -/

/-- What recording the calls of a site keeps of its profile. -/
structure Kept (log : List Callee) (sp : DispatchSiteProfile) : Prop where
  total : sp.count = min kDispatchSaturated log.length
  slots : sp.entries.length = kMaxDispatchProfileEntries
  receivers : (∀ c ∈ log, c.byReceiver) → ∃ filled, Shows sp ((receiverClasses log).foldl
    (Histogram.observe kMaxDispatchProfileEntries kDispatchSaturated) {}) filled
  statics : (∀ c ∈ log, c.byTarget) → sp.megamorphic = false ∧ ∃ t,
    sp.entries = ⟨kDispatchNoRecvClass, t, min kDispatchSaturated log.length⟩ :: freeEntries 1

section Accounts

variable {log : List Callee} {sp : DispatchSiteProfile} {c : Callee}

theorem kept_fresh : Kept [] {} where
  total := rfl
  slots := rfl
  receivers _ := ⟨[], shows_fresh⟩
  statics _ := ⟨rfl, kDispatchNoTarget, rfl⟩

theorem all_snoc {p : Callee → Prop} (h : ∀ c' ∈ log ++ [c], p c') : (∀ c' ∈ log, p c') ∧ p c :=
  ⟨fun c' hc' => h c' (mem_append_left _ hc'), h c (mem_append_right _ (mem_singleton_self c))⟩

theorem Kept.record (h : Kept log sp) (kind : DispatchSiteKind) :
    Kept (log ++ [c]) (recordAt kind c.recvClass c.target sp) := by
  obtain ⟨hcount, hlength, _⟩ := recordAt_spec kind c.recvClass c.target sp
  refine ⟨?_, hlength.trans h.slots, ?_, ?_⟩
  · rw [hcount, h.total, bump32_min, length_append, length_singleton]
  · intro hall
    obtain ⟨hlog, hc⟩ := all_snoc hall
    obtain ⟨filled, hshows⟩ := h.receivers hlog
    cases c with
    | receiver cls t =>
      rw [receiverClasses, filterMap_append, foldl_append]
      exact hshows.observe hc
    | static t => exact hc.elim
    | builtin =>
      rw [receiverClasses, filterMap_append, foldl_append]
      exact ⟨filled, hshows.tick⟩
  · intro hall
    obtain ⟨hlog, hc⟩ := all_snoc hall
    obtain ⟨hmega, t', hentries⟩ := h.statics hlog
    cases c with
    | receiver cls t => exact hc.elim
    | static t =>
      obtain ⟨hentries', hmega'⟩ := recordAt_static kind hc hentries
      refine ⟨hmega'.trans hmega, t, ?_⟩
      rw [length_append, length_singleton]
      exact hentries'
    | builtin => exact hc.elim

theorem counted_append_free (entries : List DispatchEntry) (n : Nat) :
    ((entries ++ freeEntries n).filter fun e => e.count ≠ 0) =
        entries.filter (fun e => e.count ≠ 0) ∧
      ((entries ++ freeEntries n).map DispatchEntry.count).sum =
        (entries.map DispatchEntry.count).sum := by
  constructor
  · have hfree : (freeEntries n).filter (fun e => e.count ≠ 0) = [] := by
      refine filter_eq_nil_iff.mpr fun e he => ?_
      rw [eq_of_mem_replicate he]
      decide
    rw [filter_append, hfree, append_nil]
  · rw [map_append, sum_append, freeEntries, map_replicate, sum_replicate]
    rfl

theorem length_receiverClasses (h : ∀ c ∈ log, c.byReceiver) :
    (receiverClasses log).length = log.countP Callee.framed := by
  unfold receiverClasses
  induction log with
  | nil => rfl
  | cons c log ih =>
    have hrest := ih fun c' hc' => h c' (mem_cons_of_mem _ hc')
    have hc := h c (mem_cons_self ..)
    cases c with
    | receiver cls t =>
      rw [filterMap_cons_some (by rfl), length_cons, hrest, countP_cons_of_pos (by rfl)]
    | static t => exact hc.elim
    | builtin => rw [filterMap_cons_none (by rfl), hrest, countP_cons_of_neg (by decide)]

theorem countP_framed (h : ∀ c ∈ log, c.byTarget) : log.countP Callee.framed = log.length := by
  rw [countP_eq_length]
  intro c hc
  have hby := h c hc
  cases c with
  | receiver cls t | static t => rfl
  | builtin => exact hby.elim

/-- The used entries of a site of virtual or interface calls. -/
theorem Kept.counted (h : Kept log sp) (hall : ∀ c ∈ log, c.byReceiver) :
    sp.counted = Histogram.tally kDispatchSaturated
        (Histogram.admitted kMaxDispatchProfileEntries [] (receiverClasses log)) ∧
      sp.entrySum = (sp.counted.map Prod.snd).sum ∧
      (sp.megamorphic = true ↔
        kMaxDispatchProfileEntries < Histogram.distinct (receiverClasses log)) := by
  obtain ⟨filled, hshows⟩ := h.receivers hall
  rw [Histogram.foldl_observe _ _ (by decide)] at hshows
  have hfilled : filled.filter (fun e => e.count ≠ 0) = filled :=
    filter_eq_self.mpr fun e he => decide_eq_true (hshows.used e he).1
  obtain ⟨hfilter, hsum⟩ := counted_append_free filled filled.length
  rw [hfilled] at hfilter
  have hcounted : sp.counted = filled.map fun e => (e.recvClass, e.count) := by
    rw [DispatchSiteProfile.counted, hshows.entries, hfilter]
  refine ⟨hcounted.trans hshows.slots, ?_, ?_⟩
  · rw [DispatchSiteProfile.entrySum, hshows.entries, hsum, hcounted, map_map]
    rfl
  · rw [hshows.megamorphic]
    exact decide_eq_true_iff

/-- The profile is the histogram of the calls of its site. -/
theorem Kept.exact (h : Kept log sp) : ProfileExact log sp where
  total := h.total
  slots := h.slots
  receivers hall :=
    let hcounted := h.counted hall
    ⟨hcounted.1, hcounted.2.2⟩
  statics hall := by
    obtain ⟨hmega, t, hentries⟩ := h.statics hall
    refine ⟨?_, hmega⟩
    obtain ⟨hfilter, _⟩ := counted_append_free
      [⟨kDispatchNoRecvClass, t, min kDispatchSaturated log.length⟩] 1
    rw [DispatchSiteProfile.counted, hentries]
    rw [singleton_append] at hfilter
    rw [hfilter]
    cases log with
    | nil => rfl
    | cons c log =>
      have hpos : min kDispatchSaturated (c :: log).length ≠ 0 := by
        rw [length_cons]
        unfold kDispatchSaturated
        omega
      rw [if_neg (cons_ne_nil c log), filter_cons_of_pos (by exact decide_eq_true hpos)]
      rfl
  sum hall hmega hsmall := by
    rcases hall with hall | hall
    · obtain ⟨hcounted, hsum, hiff⟩ := h.counted hall
      have hfew : Histogram.distinct (receiverClasses log) ≤ kMaxDispatchProfileEntries := by
        by_contra hmany
        rw [hiff.mpr (by omega)] at hmega
        cases hmega
      have hle : (receiverClasses log).length ≤ kDispatchSaturated :=
        Nat.le_trans (length_filterMap_le _ _) hsmall
      rw [hsum, hcounted, Histogram.admitted_of_distinct_le hfew, Histogram.sum_tally hle,
        length_receiverClasses hall]
    · obtain ⟨_, t, hentries⟩ := h.statics hall
      obtain ⟨_, hsum⟩ := counted_append_free
        [⟨kDispatchNoRecvClass, t, min kDispatchSaturated log.length⟩] 1
      rw [singleton_append] at hsum
      rw [DispatchSiteProfile.entrySum, hentries, hsum, countP_framed hall]
      show min kDispatchSaturated log.length + 0 = log.length
      omega

end Accounts

/-! ## Sessions -/

structure ExactAt (E : Env) (first : Call) (calls : List Call) (mIdx site n : Nat) (m : Machine) :
    Prop where
  exact : ProfileExact (dispatches E first calls mIdx site n)
    (siteProfile m.dispatchProfiles mIdx site)
  /-- The calls are made by the instructions whose key the site is. -/
  origin : ∀ c ∈ dispatches E first calls mIdx site n, ∃ pc ins,
    (Runtime.method E.program mIdx).code[pc]? = some ins ∧ siteKey ins pc = site ∧
      c.isStatic = !siteOp ins.op
  /-- A site once marked megamorphic stays marked. -/
  sticky : ∀ k ≤ n, ∀ m₀, (flowAt E first calls k).machine? = some m₀ →
    (siteProfile m₀.dispatchProfiles mIdx site).megamorphic = true →
    (siteProfile m.dispatchProfiles mIdx site).megamorphic = true
  /-- A call that counts as dispatched to a method has its frame pushed. -/
  pushed : ∀ k c, (flowAt E first calls k).dispatched E mIdx site = some c → c.framed = true →
    ∃ m₀ f rest ins m₁, flowAt E first calls k = .running m₀ ∧ m₀.frames = f :: rest ∧
      f.method = mIdx ∧ fetch E f = some ins ∧ flowAt E first calls (k + 1) = .running m₁ ∧
      m₁.frames = calleeFrame (Runtime.method E.program c.target) c.target ins f :: m₀.frames

section Sessions

variable {E : Env} {mIdx site : Nat} {flow : Flow} {ps : List (List DispatchSiteProfile)}

theorem Flow.HasProfiles.finish (h : flow.HasProfiles ps) : flow.finish.HasProfiles ps := by
  cases flow with
  | running m | ended status m => exact h
  | undefined => trivial

variable {m : Machine}

theorem Flow.HasProfiles.of_machine (h : flow.HasProfiles ps) (hm : flow.machine? = some m) :
    m.dispatchProfiles = ps := by
  cases flow with
  | running m' | ended status m' =>
    cases hm
    exact h
  | undefined => cases hm

theorem hasProfiles_refuse (m : Machine) (cls msg : String) :
    (refuse E m cls msg).HasProfiles m.dispatchProfiles :=
  Machine.count_dispatchProfiles _ E.cfg _

theorem hasProfiles_enterLoop (m : Machine) : (enterLoop E m).HasProfiles m.dispatchProfiles := by
  unfold enterLoop
  dsimp only
  split
  · split
    · exact hasProfiles_throw ((internProgram E m).setTop _) _
    · rfl
  · rfl

theorem hasProfiles_start (I : Interpreter) (c : Call) :
    (c.start E I).HasProfiles I.dispatchProfiles := by
  obtain ⟨flow, hstart, hcases⟩ := started_start (E := E) (I := I) c
  rw [hstart]
  apply Flow.HasProfiles.finish
  cases hcases with
  | rejected => rfl
  | refused => exact hasProfiles_refuse I.machine _ _
  | @unlocked _ _ _ _ _ rt _ => exact hasProfiles_refuse { I.machine with rt } _ _
  | run _ _ _ | runLocked _ _ _ =>
    exact hasProfiles_enterLoop { I.machine with rt := _, frames := _ }
  | resume _ _ => exact hasProfiles_enterLoop { I.machine with frames := _ }

theorem dispatched_of_call {i j : Nat} {c : Callee} (h : tripCall E m = some (i, j, c)) :
    (Flow.running m).dispatched E mIdx site =
      if i = mIdx ∧ j = site ∧ c.opens E m = true then some c else none := by
  unfold Flow.dispatched
  dsimp only
  rw [h]

theorem dispatched_eq_some {c : Callee} (h : flow.dispatched E mIdx site = some c) :
    ∃ m, flow = .running m ∧ tripCall E m = some (mIdx, site, c) ∧ c.opens E m = true := by
  cases flow with
  | running m =>
    cases hcall : tripCall E m with
    | none =>
      rw [Flow.dispatched, hcall] at h
      cases h
    | some call =>
      obtain ⟨i, j, c'⟩ := call
      rw [dispatched_of_call hcall, Option.ite_none_right_eq_some] at h
      obtain ⟨⟨rfl, rfl, hopen⟩, heq⟩ := h
      cases heq
      exact ⟨m, rfl, hcall, hopen⟩
  | ended status m | undefined => cases h

theorem dispatched_eq_none (h : ∀ i j c, tripCall E m = some (i, j, c) → c.opens E m = false) :
    (Flow.running m).dispatched E mIdx site = none := by
  unfold Flow.dispatched
  dsimp only
  split
  · rename_i i j c hcall
    rw [if_neg]
    rintro ⟨_, _, hopen⟩
    rw [h i j c hcall] at hopen
    cases hopen
  · rfl

theorem site_step (mIdx site : Nat) {m' : Machine} (hm' : (step E m).machine? = some m') :
    (siteProfile m'.dispatchProfiles mIdx site = siteProfile m.dispatchProfiles mIdx site ∧
      (Flow.running m).dispatched E mIdx site = none) ∨
    ∃ c kind, siteProfile m'.dispatchProfiles mIdx site =
        recordAt kind c.recvClass c.target (siteProfile m.dispatchProfiles mIdx site) ∧
      ((Flow.running m).dispatched E mIdx site = some c ∨
        (Flow.running m).CatchesTrap E mIdx site) := by
  cases profileTrip_step E m with
  | kept h hcall =>
    refine .inl ⟨?_, dispatched_eq_none hcall⟩
    rw [h.of_machine hm']
  | @recorded i j c kind m₁ hcall hflow hprofiles =>
    have hsame : m₁ = m' := by
      rw [hflow] at hm'
      exact Option.some.inj hm'
    subst hsame
    rw [hprofiles, siteProfile_recordDispatch, dispatched_of_call hcall]
    by_cases hkey : mIdx = i ∧ site = j
    · obtain ⟨rfl, rfl⟩ := hkey
      rw [if_pos ⟨rfl, rfl⟩]
      refine .inr ⟨c, kind, rfl, ?_⟩
      cases hopen : c.opens E m with
      | true => exact .inl (if_pos ⟨rfl, rfl, rfl⟩)
      | false => exact .inr ⟨c, m₁, hcall, hopen, hflow⟩
    · rw [if_neg hkey, if_neg (fun h => hkey ⟨h.1.symm, h.2.1.symm⟩)]
      exact .inl ⟨rfl, rfl⟩

theorem site_next (mIdx site : Nat) {s : Session} {m' : Machine}
    (hm' : (s.next E).flow.machine? = some m') :
    ∃ m, s.flow.machine? = some m ∧
      ((siteProfile m'.dispatchProfiles mIdx site = siteProfile m.dispatchProfiles mIdx site ∧
        s.flow.dispatched E mIdx site = none) ∨
      ∃ c kind, siteProfile m'.dispatchProfiles mIdx site =
          recordAt kind c.recvClass c.target (siteProfile m.dispatchProfiles mIdx site) ∧
        (s.flow.dispatched E mIdx site = some c ∨ s.flow.CatchesTrap E mIdx site)) := by
  obtain ⟨rem, flow⟩ := s
  unfold Session.next at hm'
  cases flow with
  | running m =>
    refine ⟨m, rfl, ?_⟩
    dsimp only at hm'
    cases hstep : step E m with
    | running m₁ =>
      rw [hstep] at hm'
      exact site_step mIdx site (by rw [hstep]; exact hm')
    | ended status m₁ =>
      rw [hstep] at hm'
      cases hm'
      have hended : (step E m).machine? = some m₁ := by
        rw [hstep]
        rfl
      have hsite := site_step mIdx site hended
      exact hsite
    | undefined =>
      rw [hstep] at hm'
      cases hm'
  | ended status m =>
    refine ⟨m, rfl, .inl ⟨?_, rfl⟩⟩
    cases rem with
    | nil =>
      cases hm'
      rfl
    | cons call rem =>
      rw [(hasProfiles_start (.ofMachine m) call).of_machine hm']
      rfl
  | undefined => cases hm'

variable {first : Call} {calls : List Call}

theorem kept_flowAt (n : Nat) : (∀ k < n, ¬ (flowAt E first calls k).CatchesTrap E mIdx site) →
    ∀ m, (flowAt E first calls n).machine? = some m →
      Kept (dispatches E first calls mIdx site n) (siteProfile m.dispatchProfiles mIdx site) := by
  induction n with
  | zero =>
    intro _ m hm
    rw [(hasProfiles_start (.new E.program) first).of_machine hm]
    exact kept_fresh
  | succ n ih =>
    intro hclean m' hm'
    obtain ⟨m, hm, hcases⟩ := site_next mIdx site (s := session E first calls n) hm'
    have hkept := ih (fun k hk => hclean k (by omega)) m hm
    have hflow : (session E first calls n).flow = flowAt E first calls n := rfl
    rw [hflow] at hcases
    rw [dispatches]
    rcases hcases with ⟨hsame, hnone⟩ | ⟨c, kind, hrecord, hsome | htrap⟩
    · rw [hsame, hnone, Option.toList_none, append_nil]
      exact hkept
    · rw [hrecord, hsome, Option.toList_some]
      exact hkept.record kind
    · exact absurd htrap (hclean n (Nat.lt_succ_self n))

theorem megamorphic_flowAt {k n : Nat} (hkn : k ≤ n) {m₀ : Machine}
    (hm₀ : (flowAt E first calls k).machine? = some m₀)
    (hm : (flowAt E first calls n).machine? = some m)
    (h : (siteProfile m₀.dispatchProfiles mIdx site).megamorphic = true) :
    (siteProfile m.dispatchProfiles mIdx site).megamorphic = true := by
  induction n, hkn using Nat.le_induction generalizing m with
  | base =>
    rw [hm₀] at hm
    cases hm
    exact h
  | succ n _ ih =>
    obtain ⟨m₁, hm₁, hcases⟩ := site_next mIdx site (s := session E first calls n) hm
    have hmarked := ih hm₁
    rcases hcases with ⟨hsame, _⟩ | ⟨c, kind, hrecord, _⟩
    · rw [hsame]
      exact hmarked
    · rw [hrecord]
      exact (recordAt_spec kind c.recvClass c.target _).2.2 hmarked

theorem origin_dispatches (n : Nat) : ∀ c ∈ dispatches E first calls mIdx site n, ∃ pc ins,
    (Runtime.method E.program mIdx).code[pc]? = some ins ∧ siteKey ins pc = site ∧
      c.isStatic = !siteOp ins.op := by
  induction n with
  | zero => exact fun c hc => absurd hc not_mem_nil
  | succ n ih =>
    intro c hc
    rw [dispatches] at hc
    rcases mem_append.mp hc with hc | hc
    · exact ih c hc
    · obtain ⟨m, _, hcall, _⟩ := dispatched_eq_some (Option.mem_toList.mp hc)
      exact tripCall_origin hcall

theorem pushed_flowAt {k : Nat} {c : Callee}
    (h : (flowAt E first calls k).dispatched E mIdx site = some c) (hframed : c.framed = true) :
    ∃ m₀ f rest ins m₁, flowAt E first calls k = .running m₀ ∧ m₀.frames = f :: rest ∧
      f.method = mIdx ∧ fetch E f = some ins ∧ flowAt E first calls (k + 1) = .running m₁ ∧
      m₁.frames = calleeFrame (Runtime.method E.program c.target) c.target ins f :: m₀.frames := by
  obtain ⟨m, hflow, hcall, hopen⟩ := dispatched_eq_some h
  obtain ⟨f, rest, ins, m₁, hframes, hins, hstep, hpushed⟩ := frames_of_opens hcall hopen hframed
  have hmethod : f.method = mIdx := by
    rw [tripCall_eq hframes hins] at hcall
    obtain ⟨_, _, heq⟩ := Option.map_eq_some_iff.mp hcall
    exact congrArg (fun x : Nat × Nat × Callee => x.1) heq
  refine ⟨m, f, rest, ins, m₁, hflow, hframes, hmethod, hins, ?_, hpushed⟩
  rw [flowAt_succ hflow, hstep]
  rfl

/-- As long as no exception raised by a push at the site is caught, the profile of the site is
the histogram of the calls dispatched there. -/
theorem dispatchProfile_exact {n : Nat} {m : Machine}
    (hm : (flowAt E first calls n).machine? = some m)
    (hclean : ∀ k < n, ¬ (flowAt E first calls k).CatchesTrap E mIdx site) :
    ExactAt E first calls mIdx site n m where
  exact := (kept_flowAt n hclean m hm).exact
  origin := origin_dispatches n
  sticky _ hkn _ hm₀ h := megamorphic_flowAt hkn hm₀ hm h
  pushed _ _ h hframed := pushed_flowAt h hframed

end Sessions

/-! ## A fourth receiver class -/

/-- The entries of every site add up to the frames its calls opened. -/
def EntriesSum (E : Env) (first : Call) (calls : List Call) : Prop :=
  ∀ mIdx site n m, (flowAt E first calls n).machine? = some m →
    (siteProfile m.dispatchProfiles mIdx site).entrySum =
      (dispatches E first calls mIdx site n).countP Callee.framed

/-- `static void probe(Main x) { x.m(); }`. -/
def probeMethod : Method where
  name := "probe"
  descriptor := "(LMain;)V"
  flags := 0x0008
  numRegs := 1
  numLocals := 1
  code := [⟨.aload, 0, 0, 0, 0⟩, ⟨.invokevirtual, 0, 0, 1, 0⟩, ⟨.returnVoid, 0, 0, 0, 0⟩]
  cp := [{ kind := .methodRef, str := "Main", str2 := "m", str3 := "()V" }]

/-- `void m() {}`. -/
def emptyMethod : Method where
  name := "m"
  numLocals := 1
  code := [⟨.returnVoid, 0, 0, 0, 0⟩]

/-- `static void main() { probe(new A()); probe(new B()); probe(new C()); probe(new D()); }`. -/
def mainReceivers : Method where
  flags := 0x0008
  numRegs := 1
  code := [⟨.new, 0, 0, 0, 0⟩, ⟨.invokestatic, 0, 0, 1, 4⟩, ⟨.new, 0, 0, 0, 1⟩,
    ⟨.invokestatic, 0, 0, 1, 4⟩, ⟨.new, 0, 0, 0, 2⟩, ⟨.invokestatic, 0, 0, 1, 4⟩,
    ⟨.new, 0, 0, 0, 3⟩, ⟨.invokestatic, 0, 0, 1, 4⟩, ⟨.returnVoid, 0, 0, 0, 0⟩]
  cp := [{ kind := .klass, str := "A" }, { kind := .klass, str := "B" },
    { kind := .klass, str := "C" }, { kind := .klass, str := "D" },
    { kind := .methodRef, str := "Main", str2 := "probe", str3 := "(LMain;)V" }]

def fourReceivers : Env where
  program := { methods := [mainReceivers, probeMethod, emptyMethod] }
  host := default

def sumAndFrames (E : Env) (first : Call) (mIdx site n : Nat) : Option (Nat × Nat) :=
  (flowAt E first [] n).machine?.map fun m =>
    ((siteProfile m.dispatchProfiles mIdx site).entrySum,
      (dispatches E first [] mIdx site n).countP Callee.framed)

/-- The call of the fourth class has its frame, but no entry. -/
theorem not_entriesSum_fourReceivers : ¬ EntriesSum fourReceivers (.run "main" "()V" []) [] := by
  intro h
  have hrun : sumAndFrames fourReceivers (.run "main" "()V" []) 1 1 25 = some (3, 4) := by
    decide +kernel
  obtain ⟨m, hm, heq⟩ := Option.map_eq_some_iff.mp hrun
  rw [h 1 1 25 m hm, Prod.mk.injEq] at heq
  have hsame := heq.1.symm.trans heq.2
  cases hsame

/-- The whole run, with no trap. -/
theorem dispatchProfile_exact_fourReceivers :
    ∃ m, (flowAt fourReceivers (.run "main" "()V" []) [] 25).machine? = some m ∧
      ExactAt fourReceivers (.run "main" "()V" []) [] 1 1 25 m := by
  have hrun : (flowAt fourReceivers (.run "main" "()V" []) [] 25).machine?.isSome = true := by
    decide +kernel
  obtain ⟨m, hm⟩ := Option.isSome_iff_exists.mp hrun
  exact ⟨m, hm, dispatchProfile_exact hm (by decide +kernel)⟩

end B2Compiler.Interp
