import Pimc.Pimsm.PackFit

/-!
# What `InverseUpdatePacker::fitGroup` does to the queue

The RP and the SPT sources of a group go through one loop as one list of
prunes. The loop drops the RP when it comes to it with a single slot left in
the update (`RpLost`): the entry builder that holds it goes out of scope.
-/

namespace Pimc.InverseUpdatePacker

open Lib Params GroupEntryBuilderImpl UpdatePacker

variable {A : Type}

/-! ### Entries -/

def inverseRooms (v : ℕ → UpdateBuilderImpl A) (i : ℕ) : ℕ := maxSources (v i).remaining

theorem inverseRooms_eq (v : ℕ → UpdateBuilderImpl A) (i : ℕ) :
    inverseRooms v i = ((v i).remaining - 12) / 8 := maxSources_eq _

/-- The prunes of a group, with or without the RP. -/
def inverseItems (g : GroupConfig A) (lost : Bool) : List (Source A) :=
  match g.rpt, lost with
  | some rpt, false => rpSource rpt.rp :: g.spt.map sgSource
  | _, _ => g.spt.map sgSource

def inverseEntry (g : GroupConfig A) (items : List (Source A)) (rooms : ℕ → ℕ) (i : ℕ) :
    Option (GroupEntry A) :=
  if slice rooms items i = [] then none else some ⟨g.group, [], slice rooms items i⟩

theorem rooms_eq_zero_iff {v : ℕ → UpdateBuilderImpl A} {i : ℕ} :
    inverseRooms v i = 0 ↔ (v i).remaining < 20 := by
  rw [inverseRooms_eq]
  omega

theorem rooms_empty {v : ℕ → UpdateBuilderImpl A} {i : ℕ} (h : (v i).remaining = JPCapacity) :
    inverseRooms v i = 181 := by
  rw [inverseRooms_eq, h]
  rfl

theorem rooms_behind {q : List (UpdateBuilderImpl A)} {i : ℕ} (h : q.length ≤ i) :
    inverseRooms (ubAt q) i = 181 :=
  rooms_empty (by rw [ubAt_of_le h, Sized.init_remaining])

theorem inverseEntry_eq_none {g : GroupConfig A} {items : List (Source A)} {rooms : ℕ → ℕ}
    {i : ℕ} : inverseEntry g items rooms i = none ↔ slice rooms items i = [] := by
  unfold inverseEntry
  split_ifs with hs
  · exact iff_of_true rfl hs
  · exact iff_of_false (by simp) hs

/-- The first builder with room has room for one source only. -/
def RpLost (g : GroupConfig A) (rooms : ℕ → ℕ) : Prop :=
  g.rpt.isSome = true ∧ g.spt ≠ [] ∧ ∃ i, rooms i = 1 ∧ ∀ j < i, rooms j = 0

theorem exists_lost (g : GroupConfig A) (rooms : ℕ → ℕ) :
    ∃ lost : Bool, lost = true ↔ RpLost g rooms := by
  by_cases h : RpLost g rooms
  · exact ⟨true, by simp [h]⟩
  · exact ⟨false, by simp [h]⟩

theorem pruneSlice_eq (g : A) (ps : List (Source A)) (spt : List A) (srci cnt : ℕ) :
    pruneSlice (⟨g, [], ps⟩ : GroupEntry A) spt srci cnt =
      ⟨g, [], ps ++ ((spt.drop srci).take cnt).map sgSource⟩ := by
  rw [pruneSlice, foldl_prune]
  rfl

theorem inverseItems_none {g : GroupConfig A} (h : g.rpt = none) (lost : Bool) :
    inverseItems g lost = g.spt.map sgSource := by
  simp [inverseItems, h]

theorem inverseItems_lost (g : GroupConfig A) : inverseItems g true = g.spt.map sgSource := by
  unfold inverseItems
  cases g.rpt <;> rfl

theorem inverseItems_some {g : GroupConfig A} {rpt : RPT A} (h : g.rpt = some rpt) :
    inverseItems g false = rpSource rpt.rp :: g.spt.map sgSource := by
  simp [inverseItems, h]

theorem length_inverseItems_le (g : GroupConfig A) (lost : Bool) :
    g.spt.length ≤ (inverseItems g lost).length := by
  cases lost with
  | true => rw [inverseItems_lost, List.length_map]
  | false =>
    cases h : g.rpt with
    | none => rw [inverseItems_none h, List.length_map]
    | some rpt =>
      rw [inverseItems_some h, List.length_cons, List.length_map]
      exact Nat.le_succ _

theorem inverseEntry_fits (v : ℕ → UpdateBuilderImpl A) (g : GroupConfig A)
    (items : List (Source A)) (i : ℕ) :
    ∀ ge ∈ inverseEntry g items (inverseRooms v) i, ge.size ≤ (v i).remaining := by
  intro ge hge
  have hlen := length_slice_le (inverseRooms v) items i
  rw [inverseRooms_eq] at hlen
  unfold inverseEntry at hge
  split_ifs at hge with hs
  · cases hge
  · cases hge
    have hpos : 0 < (slice (inverseRooms v) items i).length := List.length_pos_iff.mpr hs
    simp only [GroupEntry.size, List.length_nil]
    omega

/-- The slice that the loop copies when it stands at item `taken rooms i`. -/
theorem slice_eq_take {β : Type} (rooms : ℕ → ℕ) (xs : List β) {i m n : ℕ}
    (hm : m = min (taken rooms i) xs.length) (hn : n = min (rooms i) (xs.length - m)) :
    slice rooms xs i = (xs.drop m).take n := by
  unfold slice
  rcases Nat.le_total (taken rooms i) xs.length with h | h
  · rw [min_eq_left h] at hm
    rw [hm] at hn ⊢
    rcases Nat.le_total (rooms i) (xs.length - taken rooms i) with h' | h'
    · rw [hn, min_eq_left h']
    · rw [hn, min_eq_right h', List.take_of_length_le (by simpa using h'),
        List.take_of_length_le (by simp)]
  · rw [min_eq_right h] at hm
    rw [hm, List.drop_of_length_le h, List.drop_of_length_le le_rfl]
    simp

/-! ### The loop over the SPT sources -/

-- `pending` and `passed`: the loop has not come to a builder with room, or it
-- has handed out as many items as the builders before the cursor have room for.
structure SptInv (p : UpdatePacker A) (g : GroupConfig A) (lost : Bool) (s : SptLoop A) :
    Prop where
  cursor : CursorOk s.c
  length_le : p.ubq.length ≤ s.c.ubq.length
  flag : s.pruneRP = 0 ∨ s.pruneRP = 1
  pending : s.pruneRP = 1 →
    g.rpt.isSome = true ∧ s.srci = 0 ∧ ∀ i < s.c.i, inverseRooms (ubAt p.ubq) i = 0
  passed : s.pruneRP = 0 → s.srci + ((inverseItems g lost).length - g.spt.length) =
    min (taken (inverseRooms (ubAt p.ubq)) s.c.i) (inverseItems g lost).length
  before : ∀ i < s.c.i, ubAt s.c.ubq i =
    put (ubAt p.ubq i) (inverseEntry g (inverseItems g lost) (inverseRooms (ubAt p.ubq)) i)
  after : ∀ i, s.c.i ≤ i → ubAt s.c.ubq i = ubAt p.ubq i

def pruneRP (g : GroupConfig A) : ℕ := if g.rpt.isSome then 1 else 0

theorem sptInv_entry {p : UpdatePacker A} (hp : Ready p) (g : GroupConfig A) (lost : Bool) :
    SptInv p g lost ⟨UBCursor.mk' p, 0, pruneRP g⟩ := by
  have hzero : ∀ i < p.start, inverseRooms (ubAt p.ubq) i = 0 := by
    intro i hi
    have hrem := hp.full_before i hi
    rw [inverseRooms_eq]
    omega
  have htaken : taken (inverseRooms (ubAt p.ubq)) p.start = 0 := taken_eq_zero hzero
  refine ⟨cursorOk_mk hp, le_rfl, ?_, ?_, ?_, ?_, fun _ _ => rfl⟩
  · unfold pruneRP
    split_ifs
    · exact Or.inr rfl
    · exact Or.inl rfl
  · intro h
    refine ⟨?_, rfl, hzero⟩
    by_contra hnone
    simp [pruneRP, hnone] at h
  · intro h
    have hnone : g.rpt = none := by
      cases hrpt : g.rpt with
      | none => rfl
      | some rpt => simp [pruneRP, hrpt] at h
    show 0 + _ = min (taken _ p.start) _
    rw [htaken, inverseItems_none hnone]
    simp
  · intro i hi
    have hs : slice (inverseRooms (ubAt p.ubq)) (inverseItems g lost) i = [] :=
      slice_eq_nil_iff.mpr (Or.inl (hzero i hi))
    rw [inverseEntry, if_pos hs]
    rfl

section Loop

variable {p : UpdatePacker A} {g : GroupConfig A} {lost : Bool} {s : SptLoop A}

/-- The loop moves on with the entry of the builder under the cursor in place. -/
theorem SptInv.move (h : SptInv p g lost s) (srci prp : ℕ) (hflag : prp = 0 ∨ prp = 1)
    (hpending : prp = 1 → g.rpt.isSome = true ∧ srci = 0 ∧
      ∀ i < s.c.i + 1, inverseRooms (ubAt p.ubq) i = 0)
    (hpassed : prp = 0 → srci + ((inverseItems g lost).length - g.spt.length) =
      min (taken (inverseRooms (ubAt p.ubq)) (s.c.i + 1)) (inverseItems g lost).length)
    (hnone : inverseEntry g (inverseItems g lost) (inverseRooms (ubAt p.ubq)) s.c.i = none →
      (ubAt p.ubq s.c.i).remaining < 20) :
    ∃ c, CursorOk.addEntry s.c
        (inverseEntry g (inverseItems g lost) (inverseRooms (ubAt p.ubq)) s.c.i) = .ret c ∧
      SptInv p g lost ⟨c.incr, srci, prp⟩ ∧ c.incr.i = s.c.i + 1 := by
  have hderef : s.c.deref = ubAt p.ubq s.c.i := by
    rw [deref_eq, h.after s.c.i le_rfl]
  obtain ⟨c, hadd, hok, hi, hlen, hat⟩ := h.cursor.step
    (e := inverseEntry g (inverseItems g lost) (inverseRooms (ubAt p.ubq)) s.c.i)
    (by rw [hderef]; exact inverseEntry_fits _ _ _ _) (by rw [hderef]; exact hnone)
  obtain ⟨hbefore, hafter⟩ := put_step h.before h.after hat
  refine ⟨c, hadd, ⟨hok, le_trans h.length_le hlen, hflag, ?_, ?_, ?_, ?_⟩, hi⟩
  · rw [hi]
    exact hpending
  · rw [hi]
    exact hpassed
  · rw [hi]
    exact hbefore
  · rw [hi]
    exact hafter

theorem drop_inverseItems (g : GroupConfig A) (lost : Bool) (k : ℕ) :
    (inverseItems g lost).drop (k + ((inverseItems g lost).length - g.spt.length)) =
      (g.spt.map sgSource).drop k := by
  cases lost with
  | true =>
    rw [inverseItems_lost, List.length_map, Nat.sub_self]
    rfl
  | false =>
    cases h : g.rpt with
    | none =>
      rw [inverseItems_none h, List.length_map, Nat.sub_self]
      rfl
    | some rpt =>
      rw [inverseItems_some h, List.length_cons, List.length_map, Nat.add_sub_cancel_left]
      rfl

/-- The RP has been dealt with: the loop copies sources. -/
theorem sptBody_passed (h : SptInv p g lost s) (hg : sptGuard g s = true) (hprp : s.pruneRP = 0) :
    sptBody g s = (do
      let c ← CursorOk.addEntry s.c
        (inverseEntry g (inverseItems g lost) (inverseRooms (ubAt p.ubq)) s.c.i)
      return ⟨c.incr, s.srci + min (inverseRooms (ubAt p.ubq) s.c.i) (g.spt.length - s.srci), 0⟩) := by
  set rooms := inverseRooms (ubAt p.ubq) with hrooms
  have hlt : s.srci < g.spt.length := by simpa [sptGuard] using hg
  have hpassed := h.passed hprp
  have hlen := length_inverseItems_le g lost
  have hcnt : maxSources s.c.deref.remaining = rooms s.c.i := by
    rw [deref_eq, h.after s.c.i le_rfl]
    rfl
  have hslice : slice rooms (inverseItems g lost) s.c.i =
      ((g.spt.drop s.srci).take (min (rooms s.c.i) (g.spt.length - s.srci))).map sgSource := by
    have hleft : (inverseItems g lost).length -
        (s.srci + ((inverseItems g lost).length - g.spt.length)) = g.spt.length - s.srci := by
      omega
    rw [slice_eq_take rooms _ hpassed rfl, drop_inverseItems, hleft, ← List.map_drop,
      ← List.map_take]
  have hstart : (0 : ℕ) + g.spt.length - s.srci = g.spt.length - s.srci := by omega
  have hflag : ((0 : ℕ) == 1) = false := rfl
  simp only [sptBody, hprp, hstart, hcnt, hflag]
  by_cases hpos : min (rooms s.c.i) (g.spt.length - s.srci) > 0
  · have hne : slice rooms (inverseItems g lost) s.c.i ≠ [] := by
      rw [hslice, Ne, ← List.length_eq_zero_iff]
      simp only [List.length_map, List.length_take, List.length_drop]
      omega
    rw [if_pos hpos, inverseEntry, if_neg hne, ofGroup, pruneSlice_eq, size_eq, List.nil_append,
      ← hslice]
    cases g.rpt <;> rfl
  · have hzero : min (rooms s.c.i) (g.spt.length - s.srci) = 0 := by omega
    have hnil : slice rooms (inverseItems g lost) s.c.i = [] := by
      rw [hslice, hzero]
      rfl
    rw [if_neg hpos, inverseEntry, if_pos hnil, hzero]
    rfl

section Pending

variable {rpt : RPT A}

theorem count_pending (h : SptInv p g lost s) (hprp : s.pruneRP = 1) :
    min (maxSources s.c.deref.remaining) (s.pruneRP + g.spt.length - s.srci) =
      min (inverseRooms (ubAt p.ubq) s.c.i) (1 + g.spt.length) := by
  obtain ⟨_, hsrci, _⟩ := h.pending hprp
  rw [hprp, hsrci, deref_eq, h.after s.c.i le_rfl]
  rfl

theorem sptBody_no_room (h : SptInv p g lost s) (hprp : s.pruneRP = 1)
    (hroom : inverseRooms (ubAt p.ubq) s.c.i = 0) : sptBody g s = .ret ⟨s.c.incr, 0, 1⟩ := by
  obtain ⟨_, hsrci, _⟩ := h.pending hprp
  have hcnt := count_pending h hprp
  rw [hroom, Nat.zero_min] at hcnt
  simp only [sptBody, hcnt]
  rw [if_neg (Nat.lt_irrefl 0), hsrci, hprp]
  rfl

/-- The entry builder goes out of scope, and the RP with it. -/
theorem sptBody_one_slot (h : SptInv p g lost s) (hrpt : g.rpt = some rpt)
    (hprp : s.pruneRP = 1) (hroom : inverseRooms (ubAt p.ubq) s.c.i = 1) :
    sptBody g s = .ret ⟨s.c, 0, 0⟩ := by
  obtain ⟨_, hsrci, _⟩ := h.pending hprp
  have hcnt := count_pending h hprp
  rw [hroom, min_eq_left (Nat.le_add_right 1 _), hsrci] at hcnt
  have hflag : (s.pruneRP == 1) = true := by rw [hprp]; rfl
  simp only [sptBody, hcnt, hrpt, hflag, hsrci]
  rfl

theorem sptBody_rp (h : SptInv p g lost s) (hrpt : g.rpt = some rpt) (hprp : s.pruneRP = 1)
    (hroom : 2 ≤ inverseRooms (ubAt p.ubq) s.c.i) (hspt : 0 < g.spt.length) :
    sptBody g s = (do
      let c ← CursorOk.addEntry s.c
        (inverseEntry g (inverseItems g false) (inverseRooms (ubAt p.ubq)) s.c.i)
      return ⟨c.incr,
        min (inverseRooms (ubAt p.ubq) s.c.i) (1 + g.spt.length) - 1, 0⟩) := by
  set rooms := inverseRooms (ubAt p.ubq) with hrooms
  obtain ⟨_, hsrci, hzero⟩ := h.pending hprp
  have hcnt := count_pending h hprp
  rw [← hrooms, hsrci] at hcnt
  obtain ⟨m, hm⟩ : ∃ m, min (rooms s.c.i) (1 + g.spt.length) = m + 2 :=
    ⟨min (rooms s.c.i) (1 + g.spt.length) - 2, by omega⟩
  have hslice : slice rooms (inverseItems g false) s.c.i =
      rpSource rpt.rp :: ((g.spt.drop 0).take (m + 1)).map sgSource := by
    have hn : m + 2 = min (rooms s.c.i) ((inverseItems g false).length - 0) := by
      rw [inverseItems_some hrpt, List.length_cons, List.length_map]
      omega
    have hm0 : 0 = min (taken rooms s.c.i) (inverseItems g false).length := by
      rw [taken_eq_zero hzero, Nat.zero_min]
    rw [slice_eq_take rooms _ hm0 hn, inverseItems_some hrpt, List.drop_zero, List.take_succ_cons,
      List.drop_zero, List.map_take]
  have hne : slice rooms (inverseItems g false) s.c.i ≠ [] := by
    rw [hslice]
    exact List.cons_ne_nil _ _
  have hflag : (s.pruneRP == 1) = true := by rw [hprp]; rfl
  simp only [sptBody, hcnt, hrpt, hflag, hsrci]
  rw [hm, if_pos (Nat.succ_pos _), inverseEntry, if_neg hne, hslice, ofGroup]
  show (if m + 1 = 0 then _ else _) = _
  rw [if_neg (Nat.succ_ne_zero m)]
  have hgeb : pruneSlice (prune ⟨g.group, [], []⟩ rpt.rp true true) g.spt 0 (m + 1) =
      ⟨g.group, [], rpSource rpt.rp :: ((g.spt.drop 0).take (m + 1)).map sgSource⟩ :=
    pruneSlice_eq g.group [rpSource rpt.rp] g.spt 0 (m + 1)
  show ((s.c.add (pruneSlice _ _ _ (m + 1)) (size (pruneSlice _ _ _ (m + 1)))) >>= _) = _
  rw [hgeb, size_eq, Nat.zero_add]
  rfl

end Pending

def sptVariant (p : UpdatePacker A) (g : GroupConfig A) (s : SptLoop A) : ℕ :=
  (p.ubq.length + 1 - s.c.i) + (g.spt.length - s.srci) + s.pruneRP

theorem sptBody_passed_step (h : SptInv p g lost s) (hg : sptGuard g s = true)
    (hprp : s.pruneRP = 0) :
    ∃ u, sptBody g s = .ret u ∧ SptInv p g lost u ∧ sptVariant p g u < sptVariant p g s := by
  set rooms := inverseRooms (ubAt p.ubq) with hrooms
  have hlt : s.srci < g.spt.length := by simpa [sptGuard] using hg
  have hlen := length_inverseItems_le g lost
  have htaken := taken_succ rooms s.c.i
  have hpassed := h.passed hprp
  rw [sptBody_passed h hg hprp]
  rw [← hrooms] at hpassed ⊢
  obtain ⟨c, hadd, hinv, hi⟩ := h.move (s.srci + min (rooms s.c.i) (g.spt.length - s.srci)) 0
    (Or.inl rfl) (fun h1 => absurd h1 Nat.zero_ne_one)
    (fun _ => by rw [← hrooms, htaken]; omega) (fun hnone => by
      apply rooms_eq_zero_iff.mp
      rw [← hrooms]
      rw [inverseEntry_eq_none, slice_eq_nil_iff, ← hrooms] at hnone
      omega)
  refine ⟨_, ?_, hinv, ?_⟩
  · rw [← hrooms] at hadd
    rw [hadd]
    rfl
  · simp only [sptVariant, hi, hprp]
    rcases Nat.lt_or_ge s.c.i (p.ubq.length + 1) with hin | hout
    · omega
    · have hroom : rooms s.c.i = 181 := rooms_behind (by omega)
      omega

/-- The loop has not come to a builder with room, and this one has none either. -/
theorem sptBody_no_room_step (h : SptInv p g lost s) (hprp : s.pruneRP = 1)
    (hroom : inverseRooms (ubAt p.ubq) s.c.i = 0) :
    ∃ u, sptBody g s = .ret u ∧ SptInv p g lost u ∧ sptVariant p g u < sptVariant p g s := by
  obtain ⟨hsome, hsrci, hzero⟩ := h.pending hprp
  have hnone : inverseEntry g (inverseItems g lost) (inverseRooms (ubAt p.ubq)) s.c.i = none :=
    inverseEntry_eq_none.mpr (slice_eq_nil_iff.mpr (Or.inl hroom))
  have hbefore : ∀ i < s.c.i + 1, inverseRooms (ubAt p.ubq) i = 0 := by
    intro i hi
    rcases Nat.lt_succ_iff_lt_or_eq.mp hi with hi | rfl
    · exact hzero i hi
    · exact hroom
  rw [sptBody_no_room h hprp hroom]
  obtain ⟨c, hadd, hinv, hi⟩ := h.move 0 1 (Or.inr rfl) (fun _ => ⟨hsome, rfl, hbefore⟩)
    (fun h1 => absurd h1 Nat.one_ne_zero) (fun _ => rooms_eq_zero_iff.mp hroom)
  rw [hnone] at hadd
  cases hadd
  refine ⟨_, rfl, hinv, ?_⟩
  simp only [sptVariant, hi, hprp, hsrci]
  rcases Nat.lt_or_ge s.c.i (p.ubq.length + 1) with hin | hout
  · omega
  · have hroom' : inverseRooms (ubAt p.ubq) s.c.i = 181 := rooms_behind (by omega)
    omega

/-- Room for one source: the RP is forgotten and the cursor stays. -/
theorem sptBody_one_slot_step (hlost : lost = true ↔ RpLost g (inverseRooms (ubAt p.ubq)))
    (h : SptInv p g lost s) (hg : sptGuard g s = true)
    (hprp : s.pruneRP = 1) (hroom : inverseRooms (ubAt p.ubq) s.c.i = 1) :
    ∃ u, sptBody g s = .ret u ∧ SptInv p g lost u ∧ sptVariant p g u < sptVariant p g s := by
  have hlt : s.srci < g.spt.length := by simpa [sptGuard] using hg
  obtain ⟨hsome, hsrci, hzero⟩ := h.pending hprp
  obtain ⟨rpt, hrpt⟩ := Option.isSome_iff_exists.mp hsome
  have hspt : g.spt ≠ [] := List.ne_nil_of_length_pos (by omega)
  have htrue : lost = true := hlost.mpr ⟨hsome, hspt, s.c.i, hroom, hzero⟩
  rw [sptBody_one_slot h hrpt hprp hroom]
  refine ⟨_, rfl, ⟨h.cursor, h.length_le, Or.inl rfl, fun h1 => absurd h1 Nat.zero_ne_one,
    fun _ => ?_, h.before, h.after⟩, ?_⟩
  · show 0 + _ = min (taken (inverseRooms (ubAt p.ubq)) s.c.i) _
    rw [htrue, inverseItems_lost, taken_eq_zero hzero, List.length_map]
    omega
  · simp only [sptVariant, hprp, hsrci]
    omega

theorem sptBody_rp_step (hlost : lost = true ↔ RpLost g (inverseRooms (ubAt p.ubq)))
    (h : SptInv p g lost s) (hg : sptGuard g s = true)
    (hprp : s.pruneRP = 1) (hroom : 1 < inverseRooms (ubAt p.ubq) s.c.i) :
    ∃ u, sptBody g s = .ret u ∧ SptInv p g lost u ∧ sptVariant p g u < sptVariant p g s := by
  have hlt : s.srci < g.spt.length := by simpa [sptGuard] using hg
  obtain ⟨hsome, hsrci, hzero⟩ := h.pending hprp
  obtain ⟨rpt, hrpt⟩ := Option.isSome_iff_exists.mp hsome
  have hfalse : lost = false := by
    rw [← Bool.not_eq_true]
    intro htrue
    obtain ⟨_, _, i, hone, hbefore⟩ := hlost.mp htrue
    rcases Nat.lt_trichotomy i s.c.i with hi | rfl | hi
    · have hz := hzero i hi
      omega
    · omega
    · have hz := hbefore s.c.i hi
      omega
  subst hfalse
  set rooms := inverseRooms (ubAt p.ubq) with hrooms
  have htaken := taken_succ rooms s.c.i
  rw [taken_eq_zero hzero] at htaken
  have hcount : (inverseItems g false).length = 1 + g.spt.length := by
    rw [inverseItems_some hrpt, List.length_cons, List.length_map, Nat.add_comm]
  rw [sptBody_rp h hrpt hprp hroom (by omega)]
  obtain ⟨c, hadd, hinv, hi⟩ := h.move (min (rooms s.c.i) (1 + g.spt.length) - 1) 0
    (Or.inl rfl) (fun h1 => absurd h1 Nat.zero_ne_one)
    (fun _ => by rw [← hrooms, htaken, hcount]; omega) (fun hnone => by
      apply rooms_eq_zero_iff.mp
      rw [← hrooms]
      rw [inverseEntry_eq_none, slice_eq_nil_iff, ← hrooms, taken_eq_zero hzero, hcount] at hnone
      omega)
  rw [← hrooms] at hadd ⊢
  refine ⟨_, by rw [hadd]; rfl, hinv, ?_⟩
  simp only [sptVariant, hi, hprp, hsrci]
  omega

theorem sptBody_spec (hlost : lost = true ↔ RpLost g (inverseRooms (ubAt p.ubq)))
    (h : SptInv p g lost s) (hg : sptGuard g s = true) :
    ∃ u, sptBody g s = .ret u ∧ SptInv p g lost u ∧ sptVariant p g u < sptVariant p g s := by
  rcases h.flag with hprp | hprp
  · exact sptBody_passed_step h hg hprp
  · rcases Nat.lt_trichotomy (inverseRooms (ubAt p.ubq) s.c.i) 1 with hroom | hroom | hroom
    · exact sptBody_no_room_step h hprp (by omega)
    · exact sptBody_one_slot_step hlost h hg hprp hroom
    · exact sptBody_rp_step hlost h hg hprp hroom

end Loop

/-! ### The whole function -/

theorem rpGuard_iff (c : UBCursor A) : rpGuard c = true ↔ c.deref.remaining < 20 := by
  unfold rpGuard
  rw [beq_iff_eq, maxSources_eq]
  omega

section Fit

variable {p : UpdatePacker A} {g : GroupConfig A} {lost : Bool}

/-- Without sources the RP gets an entry of its own. -/
theorem inverseEntry_rp {rpt : RPT A} (hrpt : g.rpt = some rpt) (hspt : g.spt = []) {k : ℕ}
    (hk : 20 ≤ (ubAt p.ubq k).remaining) (hbefore : ∀ i < k, (ubAt p.ubq i).remaining < 20)
    (i : ℕ) : inverseEntry g (inverseItems g false) (inverseRooms (ubAt p.ubq)) i =
      if i = k then some ⟨g.group, [], [rpSource rpt.rp]⟩ else none := by
  have hzero : ∀ j < k, inverseRooms (ubAt p.ubq) j = 0 := by
    intro j hj
    have hlt := hbefore j hj
    rw [inverseRooms_eq]
    omega
  have hpos : 1 ≤ inverseRooms (ubAt p.ubq) k := by
    rw [inverseRooms_eq]
    omega
  have hitems : inverseItems g false = [rpSource rpt.rp] := by
    rw [inverseItems_some hrpt, hspt]
    rfl
  have htk : taken (inverseRooms (ubAt p.ubq)) k = 0 := taken_eq_zero hzero
  rw [inverseEntry, hitems]
  rcases Nat.lt_trichotomy i k with hi | rfl | hi
  · rw [if_pos (slice_eq_nil_iff.mpr (Or.inl (hzero i hi))), if_neg (Nat.ne_of_lt hi)]
  · have hslice : slice (inverseRooms (ubAt p.ubq)) [rpSource rpt.rp] i = [rpSource rpt.rp] := by
      rw [slice, htk, List.drop_zero, List.take_of_length_le hpos]
    rw [if_neg (by rw [hslice]; exact List.cons_ne_nil _ _), if_pos rfl, hslice]
  · have hle : [rpSource rpt.rp].length ≤ taken (inverseRooms (ubAt p.ubq)) i := by
      have hmono := taken_mono (inverseRooms (ubAt p.ubq)) (Nat.succ_le_of_lt hi)
      rw [taken_succ, htk] at hmono
      simp only [List.length_singleton]
      omega
    rw [if_pos (slice_eq_nil_of_le hle), if_neg (Nat.ne_of_gt hi)]

/-- A loop that ends with the RP pending has left every builder as it was. -/
theorem SptInv.searchInv {s : SptLoop A} (h : SptInv p g lost s) (hprp : s.pruneRP = 1) :
    SearchInv p 20 s.c := by
  obtain ⟨_, _, hzero⟩ := h.pending hprp
  refine ⟨h.cursor, ?_, h.length_le, ?_⟩
  · intro i
    rcases Nat.lt_or_ge i s.c.i with hi | hi
    · rw [h.before i hi, inverseEntry, if_pos (slice_eq_nil_iff.mpr (Or.inl (hzero i hi)))]
      rfl
    · exact h.after i hi
  · intro i hi
    have hz := hzero i hi
    rw [inverseRooms_eq] at hz
    omega

/-- `fitGroup` returns, and leaves `inverseEntry` in every builder. -/
theorem fitGroup_spec (hp : Ready p)
    (hlost : lost = true ↔ RpLost g (inverseRooms (ubAt p.ubq))) :
    ∃ p', Returns (fun fuel => fitGroup fuel p g) p' ∧ Ready p' ∧
      (inverseItems g lost).length ≤ taken (inverseRooms (ubAt p.ubq)) p'.ubq.length ∧
      p.ubq.length ≤ p'.ubq.length ∧
      ∀ i, ubAt p'.ubq i =
        put (ubAt p.ubq i) (inverseEntry g (inverseItems g lost) (inverseRooms (ubAt p.ubq)) i) := by
  obtain ⟨s, hloop, hs, hg⟩ := whileLoop_total (SptInv p g lost) (sptVariant p g)
    (fun s h hg => sptBody_spec hlost h hg) ⟨UBCursor.mk' p, 0, pruneRP g⟩ (sptInv_entry hp g lost)
  have hge : g.spt.length ≤ s.srci := by simpa [sptGuard] using hg
  have hlen := length_inverseItems_le g lost
  rcases hs.flag with hprp | hprp
  · have hpassed := hs.passed hprp
    have htaken : (inverseItems g lost).length ≤ taken (inverseRooms (ubAt p.ubq)) s.c.i := by
      omega
    refine ⟨s.c.packer, ?_, hs.cursor.ready, ?_, hs.length_le, ?_⟩
    · unfold fitGroup
      refine hloop.bind (Returns.of_eq fun fuel => ?_)
      have hflag : (s.pruneRP == 1) = false := by rw [hprp]; rfl
      simp only [hflag]
      cases g.rpt <;> rfl
    · exact le_trans htaken (taken_mono _ hs.cursor.lt_length.le)
    · intro i
      rcases Nat.lt_or_ge i s.c.i with hi | hi
      · exact hs.before i hi
      · -- the builders the loop has not come to get no item
        have hnil := slice_eq_nil_of_le (le_trans htaken (taken_mono _ hi))
        show ubAt s.c.ubq i = _
        rw [hs.after i hi, inverseEntry, if_pos hnil]
        rfl
  · obtain ⟨hsome, hsrci, _⟩ := hs.pending hprp
    obtain ⟨rpt, hrpt⟩ := Option.isSome_iff_exists.mp hsome
    have hspt : g.spt = [] := List.eq_nil_of_length_eq_zero (by omega)
    have hfalse : lost = false := by
      rw [← Bool.not_eq_true]
      intro htrue
      exact (hlost.mp htrue).2.1 hspt
    subst hfalse
    obtain ⟨d, hsearch, hinv, hroom⟩ := search_spec (by decide) rpGuard_iff s.c (hs.searchInv hprp)
    have hentry := inverseEntry_rp hrpt hspt hroom hinv.before
    have hfit : GroupEntry.size ⟨g.group, [], [rpSource rpt.rp]⟩ ≤ d.deref.remaining := by
      rw [deref_eq, hinv.ubAt_eq]
      exact hroom
    obtain ⟨c, hadd, hok, hi, hclen, hat⟩ := hinv.cursor.add hfit
    refine ⟨c.packer, ?_, hok.ready, ?_, ?_, ?_⟩
    · unfold fitGroup
      refine hloop.bind ?_
      have hflag : (s.pruneRP == 1) = true := by rw [hprp]; rfl
      simp only [hrpt, hflag]
      refine hsearch.bind (Returns.of_eq fun fuel => ?_)
      rw [size_eq]
      show (d.add ⟨g.group, [], [rpSource rpt.rp]⟩ _ >>= _) = _
      rw [show (prune (ofGroup g.group) rpt.rp true true).size =
        GroupEntry.size ⟨g.group, [], [rpSource rpt.rp]⟩ from rfl, hadd]
      rfl
    · have hmono := taken_mono (inverseRooms (ubAt p.ubq)) (Nat.succ_le_of_lt hok.lt_length)
      have hr := inverseRooms_eq (ubAt p.ubq) c.i
      rw [taken_succ] at hmono
      rw [inverseItems_some hrpt, hspt]
      rw [hi] at hmono hr
      show 1 ≤ taken _ c.ubq.length
      omega
    · show p.ubq.length ≤ c.ubq.length
      rw [hclen]
      exact hinv.length_le
    · intro i
      show ubAt c.ubq i = _
      rw [hat, hentry, hinv.ubAt_eq]

end Fit

end Pimc.InverseUpdatePacker
