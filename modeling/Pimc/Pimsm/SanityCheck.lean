import Pimc.Lib.Slices
import Pimc.Pimsm.PackSanityCheck

/-!
# What the two sanity checks share (pimsm/PackSanityCheck.hpp, pimsm/InversePackSanityCheck.hpp)

Both convert the updates back to a configuration, with a converter for each group
that has an entry, and compare the result with the original, group by group. They
differ in the converter and in the comparator of two groups.
-/

namespace Pimc

open Lib

variable {A C : Type}

-- A class of converters: the constructor, `add` and `convert`.
structure ConverterClass (A C : Type) where
  init : A → C
  add : ℕ → C → GroupEntry A → C
  convert : C → Except String (GroupConfig A)

abbrev Comparator (A : Type) : Type := A → GroupConfig A → GroupConfig A → Except String Unit

namespace ConverterClass

section Definitions

variable [LinearOrder A] (k : ConverterClass A C)

def addEntry (s : UnorderedMap A C × ℕ) (ge : GroupEntry A) : UnorderedMap A C × ℕ :=
  let maddr := ge.group
  let ii := s.1.tryEmplace maddr (k.init maddr)
  (ii.1.modify maddr fun c => k.add s.2 c ge, s.2 + 1)

def convertStep (s : UnorderedMap A (GroupConfig A) × List String) (ii : A × C) :
    UnorderedMap A (GroupConfig A) × List String :=
  match k.convert ii.2 with
  | .ok r => ((s.1.tryEmplace ii.1 r).1, s.2)
  | .error e => (s.1, s.2 ++ [e])

def convertUpdates (updates : List (Update A)) :
    Except (List String) (UnorderedMap A (GroupConfig A)) :=
  let s := updates.foldl (fun s update => update.groups.foldl k.addEntry s)
    ((.empty, 1) : UnorderedMap A C × ℕ)
  let r := s.1.entries.foldl k.convertStep (.empty, [])
  if r.2 ≠ [] then .error r.2 else .ok r.1

end Definitions

end ConverterClass

namespace Comparator

section Definitions

variable [LinearOrder A] (compare : Comparator A)

def compareStep (rslt : UnorderedMap A (GroupConfig A)) (et : ErrorTracker)
    (ii : A × GroupConfig A) : ErrorTracker :=
  match rslt.find? ii.1 with
  | none => et
  | some ri =>
    match compare ii.1 ii.2 ri with
    | .ok _ => et
    | .error e => et.append e

def compareConfigs [ToString A] (orig rslt : UnorderedMap A (GroupConfig A)) : Except String Unit :=
  let et : ErrorTracker := .init
  let gs := compareAddrSets (keySet orig) (keySet rslt)
  let et :=
    if !gs.1.toList.isEmpty then
      et.error ("missing groups:\n  " ++ concat gs.1.toList "\n  ")
    else et
  let et :=
    if !gs.2.toList.isEmpty then
      et.error ("extraneous groups:\n  " ++ concat gs.2.toList "\n  ")
    else et
  let et := orig.entries.foldl (compare.compareStep rslt) et
  if et.failed then .error et.buf else .ok ()

end Definitions

end Comparator

def verifyWith [LinearOrder A] [ToString A] (k : ConverterClass A C) (compare : Comparator A)
    (jpCfg : JPConfig A) (updates : List (Update A)) : Except String Unit :=
  match k.convertUpdates updates with
  | .error errors => .error (String.join errors)
  | .ok r =>
    let origCfg := jpCfg.groups.foldl (fun m ge => (m.tryEmplace ge.group ge).1) .empty
    compare.compareConfigs origCfg r

theorem nodup_snoc {xs : List A} {x : A} : (xs ++ [x]).Nodup ↔ xs.Nodup ∧ x ∉ xs := by
  rw [List.nodup_append_comm, List.singleton_append, List.nodup_cons, and_comm]

/-! ### Verdicts -/

theorem verdict_eq_ok {β : Type} (failed : Bool) (msg : String) (b : β) :
    (if failed = true then Except.error msg else .ok b) = .ok b ↔ failed = false := by
  cases failed with
  | false => simp
  | true => simp

theorem verdict_ok_iff {β : Type} (failed : Bool) (msg : String) (b : β) :
    (∃ r, (if failed = true then Except.error msg else .ok b) = .ok r) ↔ failed = false := by
  cases failed with
  | false => simp
  | true => simp

/-! ### The converters -/

/-- `Reads es c` holds of what a converter has become when it was given `es`. -/
structure Follows (k : ConverterClass A C) (Reads : List (GroupEntry A) → C → Prop) : Prop where
  init : ∀ a, Reads [] (k.init a)
  add : ∀ es c n ge, Reads es c → Reads (es ++ [ge]) (k.add n c ge)

section Convert

variable [LinearOrder A] {k : ConverterClass A C} {Reads : List (GroupEntry A) → C → Prop}

structure Converts (Reads : List (GroupEntry A) → C → Prop) (es : List (GroupEntry A))
    (m : UnorderedMap A C) : Prop where
  find_none : ∀ a, m.find? a = none → es.filter (·.group = a) = []
  find_some : ∀ a c, m.find? a = some c →
    es.filter (·.group = a) ≠ [] ∧ Reads (es.filter (·.group = a)) c

theorem find?_addEntry (s : UnorderedMap A C × ℕ) (ge : GroupEntry A) (a : A) :
    (k.addEntry s ge).1.find? a =
      if a = ge.group then some (k.add s.2 ((s.1.find? ge.group).getD (k.init ge.group)) ge)
      else s.1.find? a := by
  unfold ConverterClass.addEntry
  rw [UnorderedMap.find?_modify, UnorderedMap.find?_tryEmplace, UnorderedMap.find?_tryEmplace,
    if_pos rfl]
  by_cases ha : a = ge.group
  · rw [if_pos ha, if_pos ha]
    rfl
  · rw [if_neg ha, if_neg ha, if_neg ha]

theorem Converts.addEntry (hk : Follows k Reads) {es : List (GroupEntry A)}
    {s : UnorderedMap A C × ℕ} (h : Converts Reads es s.1) (ge : GroupEntry A) :
    Converts Reads (es ++ [ge]) (k.addEntry s ge).1 := by
  have hfilter : ∀ a, (es ++ [ge]).filter (·.group = a) =
      if a = ge.group then es.filter (·.group = a) ++ [ge] else es.filter (·.group = a) := by
    intro a
    rw [List.filter_append]
    split_ifs with ha
    · simp [ha]
    · simp [Ne.symm ha]
  constructor
  · intro a hnone
    rw [find?_addEntry] at hnone
    split_ifs at hnone with ha
    rw [hfilter, if_neg ha]
    exact h.find_none a hnone
  · intro a c hsome
    rw [find?_addEntry] at hsome
    rw [hfilter]
    split_ifs at hsome ⊢ with ha
    · refine ⟨by simp, ?_⟩
      cases hsome
      rw [ha]
      cases hold : s.1.find? ge.group with
      | none =>
        rw [h.find_none _ hold]
        exact hk.add [] _ s.2 ge (hk.init ge.group)
      | some c => exact hk.add _ c s.2 ge (h.find_some _ c hold).2
    · exact h.find_some a c hsome

theorem converts_foldl (hk : Follows k Reads) (es : List (GroupEntry A)) :
    Converts Reads es (es.foldl k.addEntry (.empty, 1)).1 := by
  induction es using List.reverseRecOn with
  | nil =>
    refine ⟨fun _ _ => rfl, fun a c h => ?_⟩
    cases h
  | append_singleton es ge ih =>
    rw [List.foldl_append]
    exact ih.addEntry hk ge

/-- What the conversion makes of the converters `l`. -/
structure Converted (k : ConverterClass A C) (l : List (A × C))
    (s : UnorderedMap A (GroupConfig A) × List String) : Prop where
  errors : s.2 = [] ↔ ∀ e ∈ l, ∃ r, k.convert e.2 = .ok r
  find : ∀ a r, s.1.find? a = some r ↔ ∃ c, (a, c) ∈ l ∧ k.convert c = .ok r

section Steps

variable {l : List (A × C)} {e : A × C} {s : UnorderedMap A (GroupConfig A) × List String}

theorem Converted.failed (h : Converted k l s) {msg : String} (he : k.convert e.2 = .error msg) :
    Converted k (l ++ [e]) (k.convertStep s e) := by
  have hstep : k.convertStep s e = (s.1, s.2 ++ [msg]) := by
    simp only [ConverterClass.convertStep, he]
  rw [hstep]
  refine ⟨⟨fun hnil => ?_, fun hall => ?_⟩, fun a r => ?_⟩
  · simp at hnil
  · obtain ⟨r, hr⟩ := hall e (List.mem_append_right l (List.mem_singleton_self e))
    rw [he] at hr
    cases hr
  · simp only [h.find, List.mem_append, List.mem_singleton]
    apply Iff.intro
    · intro hex
      obtain ⟨c, hin, hr⟩ := hex
      exact ⟨c, Or.inl hin, hr⟩
    · intro hex
      rcases hex with ⟨c, hin | rfl, hr⟩
      · exact ⟨c, hin, hr⟩
      · rw [he] at hr
        cases hr

theorem Converted.converted (h : Converted k l s) (hnew : e.1 ∉ l.map Prod.fst)
    {r' : GroupConfig A} (he : k.convert e.2 = .ok r') :
    Converted k (l ++ [e]) (k.convertStep s e) := by
  have hstep : k.convertStep s e = ((s.1.tryEmplace e.1 r').1, s.2) := by
    simp only [ConverterClass.convertStep, he]
  have hfresh : s.1.find? e.1 = none := by
    rw [UnorderedMap.find?_eq_none, UnorderedMap.mem_keys]
    intro hex
    obtain ⟨r, hr⟩ := hex
    obtain ⟨c, hin, _⟩ := (h.find e.1 r).mp hr
    exact hnew (List.mem_map.mpr ⟨(e.1, c), hin, rfl⟩)
  rw [hstep]
  refine ⟨?_, fun a r => ?_⟩
  · simp [h.errors, or_imp, forall_and, he]
  · simp only [UnorderedMap.find?_tryEmplace, hfresh, List.mem_append, List.mem_singleton]
    split_ifs with ha
    · apply Iff.intro
      · intro hr
        exact ⟨e.2, Or.inr (by rw [ha]), by rw [he, ← Option.some.inj hr]; rfl⟩
      · intro hex
        rcases hex with ⟨c, hin | heq, hr⟩
        · rw [ha] at hin
          exact absurd (List.mem_map.mpr ⟨(e.1, c), hin, rfl⟩) hnew
        · rw [← heq] at he
          rw [he] at hr
          cases hr
          rfl
    · rw [h.find]
      apply Iff.intro
      · intro hex
        obtain ⟨c, hin, hr⟩ := hex
        exact ⟨c, Or.inl hin, hr⟩
      · intro hex
        rcases hex with ⟨c, hin | heq, hr⟩
        · exact ⟨c, hin, hr⟩
        · rw [← heq] at ha
          exact absurd rfl ha

theorem converted_foldl (hl : (l.map Prod.fst).Nodup) :
    Converted k l (l.foldl k.convertStep (.empty, [])) := by
  induction l using List.reverseRecOn with
  | nil => exact ⟨by simp, fun a r => by simp [UnorderedMap.find?_empty]⟩
  | append_singleton l e ih =>
    rw [List.map_append, List.map_singleton, nodup_snoc] at hl
    have h := ih hl.1
    rw [List.foldl_append]
    cases hc : k.convert e.2 with
    | error msg => exact h.failed hc
    | ok r => exact h.converted hl.2 hc

end Steps

/-- A converter that was given the entries of `a`, where it has been made. -/
structure Found (k : ConverterClass A C) (Reads : List (GroupEntry A) → C → Prop)
    (us : List (Update A)) (a : A) (r : GroupConfig A) : Prop where
  entries : entriesOf a us ≠ []
  converter : ∃ c, Reads (entriesOf a us) c ∧ k.convert c = .ok r

/-- What the conversion of a list of updates finds. -/
theorem convertUpdates_spec (hk : Follows k Reads) (us : List (Update A)) :
    (∃ m, k.convertUpdates us = .ok m ∧ ∀ a, (m.find? a = none ∧ entriesOf a us = []) ∨
      ∃ r, m.find? a = some r ∧ Found k Reads us a r) ∨
    ((∃ e, k.convertUpdates us = .error e) ∧
      ∃ a c msg, Reads (entriesOf a us) c ∧ k.convert c = .error msg) := by
  have hfold : us.foldl (fun s (update : Update A) => update.groups.foldl k.addEntry s)
      ((.empty, 1) : UnorderedMap A C × ℕ) =
      (us.flatMap (·.groups)).foldl k.addEntry (.empty, 1) := by
    rw [List.foldl_flatMap]
  have hentries : ∀ a, entriesOf a us = (us.flatMap (·.groups)).filter (·.group = a) := by
    intro a
    rw [entriesOf, List.filter_flatMap]
  have hconverts := converts_foldl hk (us.flatMap (·.groups))
  rw [← hfold] at hconverts
  unfold ConverterClass.convertUpdates
  generalize us.foldl (fun s (update : Update A) => update.groups.foldl k.addEntry s)
    ((.empty, 1) : UnorderedMap A C × ℕ) = s at hconverts ⊢
  have hconverted : Converted k s.1.entries (s.1.entries.foldl k.convertStep (.empty, [])) :=
    converted_foldl s.1.nodup
  obtain ⟨herrors, hfind⟩ := hconverted
  have hreads : ∀ a c, s.1.find? a = some c → entriesOf a us ≠ [] ∧ Reads (entriesOf a us) c := by
    intro a c hc
    rw [hentries]
    exact hconverts.find_some a c hc
  by_cases hnil : (s.1.entries.foldl k.convertStep (.empty, [])).2 = []
  · left
    have hall := herrors.mp hnil
    refine ⟨_, if_neg (not_not.mpr hnil), fun a => ?_⟩
    cases hc : s.1.find? a with
    | none =>
      left
      refine ⟨?_, by rw [hentries]; exact hconverts.find_none a hc⟩
      cases hr : (s.1.entries.foldl k.convertStep (.empty, [])).1.find? a with
      | none => rfl
      | some r =>
        obtain ⟨c, hin, _⟩ := (hfind a r).mp hr
        rw [UnorderedMap.find?_eq_some.mpr hin] at hc
        cases hc
    | some c =>
      right
      have hin := UnorderedMap.find?_eq_some.mp hc
      obtain ⟨r, hr⟩ := hall (a, c) hin
      obtain ⟨hne, hread⟩ := hreads a c hc
      exact ⟨r, (hfind a r).mpr ⟨c, hin, hr⟩, hne, c, hread, hr⟩
  · right
    refine ⟨⟨_, if_pos hnil⟩, ?_⟩
    rw [herrors] at hnil
    push Not at hnil
    obtain ⟨⟨a, c⟩, hin, hbad⟩ := hnil
    have hread := (hreads a c (UnorderedMap.find?_eq_some.mpr hin)).2
    cases hconv : k.convert c with
    | ok r => exact absurd hconv (hbad r)
    | error msg => exact ⟨a, c, msg, hread, hconv⟩

end Convert

/-! ### The comparison -/

section Compare

variable [LinearOrder A]

theorem mem_vecSet {v : List A} {a : A} : a ∈ (vecSet v).toList ↔ a ∈ v := by
  have h := UnorderedSet.mem_insertAll (.empty : UnorderedSet A) v a
  rw [show (UnorderedSet.empty : UnorderedSet A).insertAll v = vecSet v from rfl] at h
  rw [h]
  exact or_iff_right List.not_mem_nil

theorem mem_keySet {β : Type} {m : UnorderedMap A β} {a : A} :
    a ∈ (keySet m).toList ↔ a ∈ m.keys := by
  have h := UnorderedSet.mem_insertAll (.empty : UnorderedSet A) m.keys a
  rw [UnorderedSet.insertAll, UnorderedMap.keys, List.foldl_map] at h
  unfold keySet
  rw [h]
  exact or_iff_right List.not_mem_nil

theorem compareAddrSets_fst (a b : UnorderedSet A) :
    (compareAddrSets a b).1.toList.isEmpty = true ↔ ∀ x ∈ a.toList, x ∈ b.toList := by
  have hset : (compareAddrSets a b).1 =
      OrdSet.empty.insertAll (a.toList.filter fun x => !b.contains x) := by
    rw [OrdSet.insertAll, List.foldl_filter]
    rfl
  rw [hset, OrdSet.toList_isEmpty]
  simp only [OrdSet.mem_insertAll, OrdSet.mem_empty, false_or, List.mem_filter, not_and,
    Bool.not_eq_true', Bool.not_eq_false, UnorderedSet.contains_iff]

theorem compareAddrSets_snd (a b : UnorderedSet A) :
    (compareAddrSets a b).2.toList.isEmpty = true ↔ ∀ x ∈ b.toList, x ∈ a.toList :=
  compareAddrSets_fst b a

theorem vecSets_agree (xs ys : List A) :
    ((compareAddrSets (vecSet xs) (vecSet ys)).1.toList.isEmpty = true ∧
      (compareAddrSets (vecSet xs) (vecSet ys)).2.toList.isEmpty = true) ↔
      ∀ a, a ∈ xs ↔ a ∈ ys := by
  rw [compareAddrSets_fst, compareAddrSets_snd]
  simp only [mem_vecSet]
  apply Iff.intro
  · intro h' a
    obtain ⟨h1, h2⟩ := h'
    exact ⟨h1 a, h2 a⟩
  · intro h
    exact ⟨fun a => (h a).mp, fun a => (h a).mpr⟩

section Errors

variable [ToString A]

omit [LinearOrder A] in
theorem groupBase_failed_ite (gb : GroupBase A) (text : String) (b : Bool) :
    (if b = true then gb.error text else gb).failed = (gb.failed || b) := by
  cases b with
  | false => simp
  | true => simp [GroupBase.error]

theorem errorTracker_failed_ite (et : ErrorTracker) (text : String) (b : Bool) :
    (if b = true then et.error text else et).failed = (et.failed || b) := by
  cases b with
  | false => simp
  | true => simp [ErrorTracker.error]

variable (compare : Comparator A)

omit [ToString A] in
theorem foldl_compareStep (rslt : UnorderedMap A (GroupConfig A)) (l : List (A × GroupConfig A))
    (et : ErrorTracker) : (l.foldl (compare.compareStep rslt) et).failed = false ↔
      et.failed = false ∧ ∀ e ∈ l, ∀ r, rslt.find? e.1 = some r →
        compare e.1 e.2 r = .ok () := by
  induction l generalizing et with
  | nil => simp
  | cons e l ih =>
    rw [List.foldl_cons, ih, List.forall_mem_cons, ← and_assoc]
    have hstep : (compare.compareStep rslt et e).failed = false ↔ et.failed = false ∧
        ∀ r, rslt.find? e.1 = some r → compare e.1 e.2 r = .ok () := by
      unfold Comparator.compareStep
      cases hr : rslt.find? e.1 with
      | none => simp
      | some r =>
        cases hcmp : compare e.1 e.2 r with
        | ok u => simp [hcmp]
        | error msg => simp [ErrorTracker.append, hcmp]
    rw [hstep]

theorem compareConfigs_ok_iff (orig rslt : UnorderedMap A (GroupConfig A)) :
    compare.compareConfigs orig rslt = .ok () ↔ (∀ a, a ∈ orig.keys ↔ a ∈ rslt.keys) ∧
      ∀ a g r, orig.find? a = some g → rslt.find? a = some r → compare a g r = .ok () := by
  unfold Comparator.compareConfigs
  rw [verdict_eq_ok, foldl_compareStep]
  simp only [errorTracker_failed_ite, ErrorTracker.init, Bool.false_or, Bool.or_eq_false_iff,
    Bool.not_eq_false', compareAddrSets_fst, compareAddrSets_snd, mem_keySet]
  refine and_congr ?_ ?_
  · apply Iff.intro
    · intro h' a
      obtain ⟨h1, h2⟩ := h'
      exact ⟨h1 a, h2 a⟩
    · intro h
      exact ⟨fun a => (h a).mp, fun a => (h a).mpr⟩
  · apply Iff.intro
    · intro h a g r hg hr
      exact h (a, g) (UnorderedMap.find?_eq_some.mp hg) r hr
    · intro h h' hin r hr
      obtain ⟨a, g⟩ := h'
      exact h a g r (UnorderedMap.find?_eq_some.mpr hin) hr

end Errors

theorem find?_origCfg (groups : List (GroupConfig A)) (hdist : (groups.map (·.group)).Nodup)
    (a : A) (g : GroupConfig A) :
    (groups.foldl (fun m ge => (m.tryEmplace ge.group ge).1) UnorderedMap.empty).find? a = some g ↔
      g ∈ groups ∧ g.group = a := by
  induction groups using List.reverseRecOn generalizing a g with
  | nil => simp [UnorderedMap.find?_empty]
  | append_singleton groups ge ih =>
    rw [List.map_append, List.map_singleton, nodup_snoc] at hdist
    have hnew : (groups.foldl (fun m ge => (m.tryEmplace ge.group ge).1)
        UnorderedMap.empty).find? ge.group = none := by
      rw [Option.eq_none_iff_forall_ne_some]
      intro g hg
      obtain ⟨hin, heq⟩ := (ih hdist.1 ge.group g).mp hg
      exact hdist.2 (heq ▸ List.mem_map_of_mem hin)
    rw [List.foldl_append, List.foldl_cons, List.foldl_nil, UnorderedMap.find?_tryEmplace, hnew,
      List.mem_append, List.mem_singleton]
    split_ifs with ha
    · apply Iff.intro
      · intro h
        cases h
        exact ⟨Or.inr rfl, ha.symm⟩
      · intro h'
        rcases h' with ⟨hin | rfl, heq⟩
        · have hmem : ge.group ∈ groups.map (·.group) :=
            List.mem_map.mpr ⟨g, hin, heq.trans ha⟩
          exact absurd hmem hdist.2
        · rfl
    · rw [ih hdist.1]
      apply Iff.intro
      · intro h'
        obtain ⟨hin, heq⟩ := h'
        exact ⟨Or.inl hin, heq⟩
      · intro h'
        rcases h' with ⟨hin | rfl, heq⟩
        · exact ⟨hin, heq⟩
        · exact absurd heq.symm ha

end Compare

/-! ### The checker -/

/-- What a class of converters and a comparator decide about the entries of one group. -/
structure Decides (k : ConverterClass A C) (compare : Comparator A)
    (Reads : List (GroupEntry A) → C → Prop) (Readable : List (GroupEntry A) → Prop)
    (Agrees : GroupConfig A → List (GroupEntry A) → Prop) : Prop where
  follows : Follows k Reads
  readable_nil : Readable []
  convert_iff : ∀ es c, Reads es c → ((∃ r, k.convert c = .ok r) ↔ Readable es)
  compare_iff : ∀ es c r g, Reads es c → k.convert c = .ok r →
    (compare g.group g r = .ok () ↔ Agrees g es)

section Verify

variable [LinearOrder A] [ToString A] {k : ConverterClass A C} {compare : Comparator A}
  {Reads : List (GroupEntry A) → C → Prop} {Readable : List (GroupEntry A) → Prop}
  {Agrees : GroupConfig A → List (GroupEntry A) → Prop}

theorem verifyWith_ok_iff (h : Decides k compare Reads Readable Agrees) (cfg : JPConfig A)
    (hdist : cfg.DistinctGroups) (us : List (Update A)) :
    verifyWith k compare cfg us = .ok () ↔ (∀ a, Readable (entriesOf a us)) ∧
      (∀ a, entriesOf a us ≠ [] ↔ ∃ g ∈ cfg.groups, g.group = a) ∧
      ∀ g ∈ cfg.groups, Agrees g (entriesOf g.group us) := by
  rcases convertUpdates_spec h.follows us with ⟨m, hm, hfind⟩ | ⟨⟨e, he⟩, a, c, msg, hc, hmsg⟩
  · have hverify : verifyWith k compare cfg us = compare.compareConfigs
        (cfg.groups.foldl (fun m ge => (m.tryEmplace ge.group ge).1) UnorderedMap.empty) m := by
      unfold verifyWith
      rw [hm]
    have hread : ∀ a, Readable (entriesOf a us) := by
      intro a
      rcases hfind a with ⟨_, hnil⟩ | ⟨r, _, hr⟩
      · rw [hnil]
        exact h.readable_nil
      · obtain ⟨c, hc, hok⟩ := hr.converter
        exact (h.convert_iff _ c hc).mp ⟨r, hok⟩
    have hkeys : ∀ a, a ∈ m.keys ↔ entriesOf a us ≠ [] := by
      intro a
      rw [UnorderedMap.mem_keys]
      rcases hfind a with ⟨hnone, hnil⟩ | ⟨r, hsome, hr⟩
      · simp [hnone, hnil]
      · simp [hsome, hr.entries]
    have horig : ∀ a, a ∈ (cfg.groups.foldl (fun m ge => (m.tryEmplace ge.group ge).1)
        UnorderedMap.empty).keys ↔ ∃ g ∈ cfg.groups, g.group = a := by
      intro a
      rw [UnorderedMap.mem_keys]
      simp only [find?_origCfg cfg.groups hdist]
    have hagrees : ∀ g ∈ cfg.groups, entriesOf g.group us ≠ [] →
        ((∀ r, m.find? g.group = some r → compare g.group g r = .ok ()) ↔
          Agrees g (entriesOf g.group us)) := by
      intro g _ hne
      rcases hfind g.group with ⟨_, hnil⟩ | ⟨r, hsome, hr⟩
      · exact absurd hnil hne
      · obtain ⟨c, hc, hok⟩ := hr.converter
        rw [← h.compare_iff _ c r g hc hok, hsome]
        simp
    rw [hverify, compareConfigs_ok_iff]
    simp only [horig, hkeys, find?_origCfg cfg.groups hdist]
    apply Iff.intro
    · intro h'
      obtain ⟨hk, hcmp⟩ := h'
      refine ⟨hread, fun a => (hk a).symm, fun g hg => ?_⟩
      refine (hagrees g hg ((hk g.group).mp ⟨g, hg, rfl⟩)).mp fun r hr => ?_
      exact hcmp g.group g r ⟨hg, rfl⟩ hr
    · intro h'
      obtain ⟨_, hgroups, hgroup⟩ := h'
      refine ⟨fun a => (hgroups a).symm, ?_⟩
      intro a g r hga hr
      obtain ⟨hg, rfl⟩ := hga
      have hne := (hgroups g.group).mpr ⟨g, hg, rfl⟩
      exact (hagrees g hg hne).mpr (hgroup g hg) r hr
  · have hverify : verifyWith k compare cfg us = .error (String.join e) := by
      unfold verifyWith
      rw [he]
    rw [hverify]
    refine iff_of_false (fun heq => by cases heq) ?_
    intro hall
    obtain ⟨r, hr⟩ := (h.convert_iff _ c hc).mpr (hall.1 a)
    rw [hmsg] at hr
    cases hr

end Verify

end Pimc
