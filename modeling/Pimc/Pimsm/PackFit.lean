import Pimc.Lib.Slices
import Pimc.Pimsm.Pack
import Pimc.Pimsm.Queue

/-!
# What `UpdatePacker::fitGroup` does to the queue

The entry that a group leaves in builder `i` is `packEntry g rooms k i`: its
slice of the SPT sources, and the whole RPT if `i` is the builder `k` chosen
for it. `fitGroup_spec` says that the two paths of the code that write the RPT,
the one inside the loop and the one behind it, come to this.
-/

namespace Pimc.UpdatePacker

open Lib Params GroupEntryBuilderImpl

variable {A : Type}

/-! ### Entries -/

def sgSource (a : A) : Source A := ⟨a, false, false⟩

def rpSource (a : A) : Source A := ⟨a, true, true⟩

def rptSource (a : A) : Source A := ⟨a, false, true⟩

-- Bytes set aside for the RP and the RPT-pruned sources.
def reserve (rpt : RPT A) : ℕ := SrcASize * (rpt.prunes.length + 1)

-- Sources that builder `i` has room for; less where the RPT goes.
def packRooms (v : ℕ → UpdateBuilderImpl A) (g : GroupConfig A) (k : Option ℕ) (i : ℕ) : ℕ :=
  match g.rpt, k == some i with
  | some rpt, true => maxSources ((v i).remaining - reserve rpt)
  | _, _ => maxSources (v i).remaining

def packEntry (g : GroupConfig A) (rooms : ℕ → ℕ) (k : Option ℕ) (i : ℕ) :
    Option (GroupEntry A) :=
  match g.rpt, k == some i with
  | some rpt, true =>
    some ⟨g.group, (slice rooms g.spt i).map sgSource ++ [rpSource rpt.rp],
      rpt.prunes.map rptSource⟩
  | _, _ =>
    if slice rooms g.spt i = [] then none
    else some ⟨g.group, (slice rooms g.spt i).map sgSource, []⟩

-- The builder that the search for room for the RPT ends at.
def IsRptUb (v : ℕ → UpdateBuilderImpl A) (g : GroupConfig A) (k : Option ℕ) : Prop :=
  match g.rpt with
  | none => k = none
  | some rpt => ∃ i, k = some i ∧ rptSz rpt ≤ (v i).remaining ∧
      ∀ j < i, (v j).remaining < rptSz rpt

/-- The prune limit that the config loader enforces. -/
def PruneLimit (g : GroupConfig A) : Prop := g.prunes.length ≤ MaxPruneSGrptLen

instance (g : GroupConfig A) : Decidable (PruneLimit g) :=
  inferInstanceAs (Decidable (_ ≤ _))

theorem filter_plain_sgSource (xs : List A) : (xs.map sgSource).filter (·.plain) = xs.map sgSource := by
  rw [List.filter_eq_self]
  intro s hs
  obtain ⟨a, _, rfl⟩ := List.mem_map.mp hs
  rfl

theorem filter_shared_sgSource (xs : List A) : (xs.map sgSource).filter (·.shared) = [] := by
  rw [List.filter_eq_nil_iff]
  intro s hs
  obtain ⟨a, _, rfl⟩ := List.mem_map.mp hs
  exact Bool.false_ne_true

theorem map_addr_sgSource (xs : List A) : (xs.map sgSource).map (·.addr) = xs := by
  rw [List.map_map]
  exact List.map_id xs

theorem rptSz_eq (rpt : RPT A) : rptSz rpt = 12 + reserve rpt := rfl

theorem reserve_eq (rpt : RPT A) : reserve rpt = 8 * (rpt.prunes.length + 1) := rfl

theorem joinSlice_eq (g : A) (spt : List A) (srci cnt : ℕ) :
    joinSlice (ofGroup g) spt srci cnt = ⟨g, ((spt.drop srci).take cnt).map sgSource, []⟩ := by
  rw [joinSlice, foldl_join]
  rfl

theorem joinRpt_eq (g : A) (js : List (Source A)) (rpt : RPT A) :
    joinRpt (⟨g, js, []⟩ : GroupEntry A) rpt =
      ⟨g, js ++ [rpSource rpt.rp], rpt.prunes.map rptSource⟩ := by
  rw [joinRpt, foldl_prune]
  rfl

/-- The slice that the loop copies when it comes to builder `i`. -/
theorem take_drop_eq_slice (rooms : ℕ → ℕ) (xs : List A) (i : ℕ) :
    (xs.drop (taken rooms i)).take (min (rooms i) (xs.length - taken rooms i)) =
      slice rooms xs i := by
  unfold slice
  rcases Nat.le_total (rooms i) (xs.length - taken rooms i) with h | h
  · rw [min_eq_left h]
  · rw [min_eq_right h, List.take_of_length_le (by simp), List.take_of_length_le (by simpa using h)]

/-! ### The search for room for the RPT -/

theorem rptGuard_iff (rpt : RPT A) (c : UBCursor A) :
    rptGuard rpt c = true ↔ c.deref.remaining < rptSz rpt := decide_eq_true_iff

theorem rptSz_bounds {g : GroupConfig A} (hlim : PruneLimit g) {rpt : RPT A}
    (hrpt : g.rpt = some rpt) : 20 ≤ rptSz rpt ∧ rptSz rpt ≤ JPCapacity := by
  have hle : rpt.prunes.length ≤ 180 := by
    simpa [PruneLimit, GroupConfig.prunes, hrpt, MaxPruneSGrptLen] using hlim
  rw [rptSz_eq, reserve_eq]
  show 20 ≤ 12 + 8 * (rpt.prunes.length + 1) ∧ 12 + 8 * (rpt.prunes.length + 1) ≤ 1466
  omega

theorem findRptUb_spec {p : UpdatePacker A} {g : GroupConfig A} (h : Ready p)
    (hlim : PruneLimit g) :
    ∃ q k, Returns (fun fuel => findRptUb fuel p g) (q, k) ∧ Ready q ∧
      (∀ i, ubAt q.ubq i = ubAt p.ubq i) ∧ p.ubq.length ≤ q.ubq.length ∧
      IsRptUb (ubAt p.ubq) g k ∧ ∀ i ∈ k, q.start ≤ i ∧ i < q.ubq.length := by
  cases hrpt : g.rpt with
  | none =>
    refine ⟨p, none, Returns.of_eq fun fuel => ?_, h, fun _ => rfl, le_rfl, ?_, ?_⟩
    · simp [findRptUb, hrpt]
    · simp [IsRptUb, hrpt]
    · intro i hi
      cases hi
  | some rpt =>
    have hneed := rptSz_bounds hlim hrpt
    obtain ⟨c, hret, hinv, hfits⟩ :=
      search_spec hneed.2 (rptGuard_iff rpt) (UBCursor.mk' p) (searchInv_mk h hneed.1)
    refine ⟨c.packer, some c.i, ?_, hinv.cursor.ready, hinv.ubAt_eq, hinv.length_le, ?_, ?_⟩
    · simp only [findRptUb, hrpt]
      exact hret.bind (Returns.of_eq fun _ => rfl)
    · simp only [IsRptUb, hrpt]
      exact ⟨c.i, rfl, hfits, hinv.before⟩
    · intro i hi
      cases hi
      exact ⟨hinv.cursor.start_le, hinv.cursor.lt_length⟩

/-! ### The loop over the SPT sources -/

theorem packRooms_of_ne {v : ℕ → UpdateBuilderImpl A} {g : GroupConfig A} {k : Option ℕ} {i : ℕ}
    (h : k ≠ some i) : packRooms v g k i = ((v i).remaining - 12) / 8 := by
  have hb : (k == some i) = false := by simpa using h
  rw [packRooms, hb, maxSources_eq]
  cases g.rpt <;> rfl

theorem packRooms_eq {v : ℕ → UpdateBuilderImpl A} {g : GroupConfig A} {rpt : RPT A}
    (hrpt : g.rpt = some rpt) (i : ℕ) :
    packRooms v g (some i) i = ((v i).remaining - reserve rpt - 12) / 8 := by
  simp [packRooms, hrpt, maxSources_eq]

theorem packEntry_of_ne {g : GroupConfig A} {rooms : ℕ → ℕ} {k : Option ℕ} {i : ℕ}
    (h : k ≠ some i) : packEntry g rooms k i =
      if slice rooms g.spt i = [] then none
      else some ⟨g.group, (slice rooms g.spt i).map sgSource, []⟩ := by
  have hb : (k == some i) = false := by simpa using h
  rw [packEntry, hb]
  cases g.rpt <;> rfl

theorem packEntry_eq {g : GroupConfig A} {rpt : RPT A} (hrpt : g.rpt = some rpt)
    (rooms : ℕ → ℕ) (i : ℕ) : packEntry g rooms (some i) i =
      some ⟨g.group, (slice rooms g.spt i).map sgSource ++ [rpSource rpt.rp],
        rpt.prunes.map rptSource⟩ := by
  simp [packEntry, hrpt]

theorem IsRptUb.unique {v : ℕ → UpdateBuilderImpl A} {g : GroupConfig A} {k k' : Option ℕ}
    (h : IsRptUb v g k) (h' : IsRptUb v g k') : k = k' := by
  unfold IsRptUb at h h'
  cases hrpt : g.rpt with
  | none =>
    simp only [hrpt] at h h'
    rw [h, h']
  | some rpt =>
    simp only [hrpt] at h h'
    obtain ⟨i, rfl, hi, hbefore⟩ := h
    obtain ⟨j, rfl, hj, hbefore'⟩ := h'
    rcases Nat.lt_trichotomy i j with hij | rfl | hij
    · have hlt := hbefore' i hij
      omega
    · rfl
    · have hlt := hbefore j hij
      omega

theorem IsRptUb.rpt_eq_some {v : ℕ → UpdateBuilderImpl A} {g : GroupConfig A} {k : Option ℕ}
    {i : ℕ} (h : IsRptUb v g k) (hk : k = some i) :
    ∃ rpt, g.rpt = some rpt ∧ 12 + reserve rpt ≤ (v i).remaining := by
  unfold IsRptUb at h
  cases hrpt : g.rpt with
  | none =>
    simp only [hrpt] at h
    rw [h] at hk
    cases hk
  | some rpt =>
    simp only [hrpt] at h
    obtain ⟨j, hj, hfit, _⟩ := h
    rw [hk] at hj
    cases hj
    exact ⟨rpt, rfl, hfit⟩

/-- The entry of a builder fits into it. -/
theorem packEntry_fits {v : ℕ → UpdateBuilderImpl A} {g : GroupConfig A} {k : Option ℕ}
    (hk : IsRptUb v g k) (i : ℕ) :
    ∀ ge ∈ packEntry g (packRooms v g k) k i, ge.size ≤ (v i).remaining := by
  intro ge hge
  have hlen := length_slice_le (packRooms v g k) g.spt i
  by_cases hki : k = some i
  · obtain ⟨rpt, hrpt, hfit⟩ := hk.rpt_eq_some hki
    subst hki
    rw [packEntry_eq hrpt] at hge
    cases hge
    rw [packRooms_eq hrpt] at hlen
    rw [reserve_eq] at hlen hfit
    simp only [GroupEntry.size, List.length_append, List.length_map, List.length_singleton]
    omega
  · rw [packEntry_of_ne hki] at hge
    rw [packRooms_of_ne hki] at hlen
    by_cases hs : slice (packRooms v g k) g.spt i = []
    · rw [if_pos hs] at hge
      cases hge
    · rw [if_neg hs] at hge
      cases hge
      have hpos : 0 < (slice (packRooms v g k) g.spt i).length := List.length_pos_iff.mpr hs
      simp only [GroupEntry.size, List.length_map, List.length_nil]
      omega

-- Where the loop stands: everything before the cursor has its entry, nothing
-- from the cursor on has been touched.
structure SptInv (p : UpdatePacker A) (g : GroupConfig A) (k : Option ℕ) (s : SptLoop A) :
    Prop where
  cursor : CursorOk s.c
  length_le : p.ubq.length ≤ s.c.ubq.length
  srci_eq : s.srci = min (taken (packRooms (ubAt p.ubq) g k) s.c.i) g.spt.length
  rptUb_eq : s.rptUb = k.filter (s.c.i ≤ ·)
  before : ∀ i < s.c.i, ubAt s.c.ubq i =
    put (ubAt p.ubq i) (packEntry g (packRooms (ubAt p.ubq) g k) k i)
  after : ∀ i, s.c.i ≤ i → ubAt s.c.ubq i = ubAt p.ubq i

theorem filter_succ {k : Option ℕ} {i : ℕ} (h : k ≠ some i) :
    k.filter (i ≤ ·) = k.filter (i + 1 ≤ ·) := by
  cases k with
  | none => rfl
  | some j =>
    have hij : i ≠ j := fun he => h (by rw [he])
    simp only [Option.filter_some, decide_eq_true_eq]
    split_ifs <;> first | rfl | omega

section Loop

variable {p : UpdatePacker A} {g : GroupConfig A} {k : Option ℕ} {s : SptLoop A}

theorem sptInv_entry (hp : Ready p) (hk : ∀ i ∈ k, p.start ≤ i) :
    SptInv p g k ⟨UBCursor.mk' p, 0, k⟩ := by
  have hzero : ∀ i < p.start, packRooms (ubAt p.ubq) g k i = 0 ∧ k ≠ some i := by
    intro i hi
    have hne : k ≠ some i := fun he => absurd (hk i he) (Nat.not_le.mpr hi)
    have hrem := hp.full_before i hi
    refine ⟨?_, hne⟩
    rw [packRooms_of_ne hne]
    omega
  refine ⟨cursorOk_mk hp, le_rfl, ?_, ?_, ?_, fun _ _ => rfl⟩
  · have ht : taken (packRooms (ubAt p.ubq) g k) p.start = 0 :=
      taken_eq_zero fun i hi => (hzero i hi).1
    show 0 = min (taken _ p.start) _
    rw [ht]
    simp
  · cases k with
    | none => rfl
    | some i =>
      have hle : p.start ≤ i := hk i rfl
      show some i = Option.filter (fun j => decide (p.start ≤ j)) (some i)
      rw [Option.filter_some, if_pos (by simpa using hle)]
  · intro i hi
    obtain ⟨hroom, hne⟩ := hzero i hi
    rw [packEntry_of_ne hne, if_pos (slice_eq_nil_iff.mpr (Or.inl hroom))]
    rfl

/-- One round of the loop, in terms of the entry of the builder under the cursor. -/
theorem sptBody_eq (hk : IsRptUb (ubAt p.ubq) g k) (h : SptInv p g k s)
    (hg : sptGuard g s = true) :
    sptBody g s = (do
      let c ← CursorOk.addEntry s.c (packEntry g (packRooms (ubAt p.ubq) g k) k s.c.i)
      return ⟨c.incr, min (taken (packRooms (ubAt p.ubq) g k) (s.c.i + 1)) g.spt.length,
        k.filter (s.c.i + 1 ≤ ·)⟩) := by
  set rooms := packRooms (ubAt p.ubq) g k with hrooms
  have hlt : s.srci < g.spt.length := by simpa [sptGuard] using hg
  have hsrci : s.srci = taken rooms s.c.i := by
    have heq := h.srci_eq
    rw [← hrooms] at heq
    omega
  have hderef : s.c.deref.remaining = (ubAt p.ubq s.c.i).remaining := by
    rw [deref_eq, h.after s.c.i le_rfl]
  have hnext : s.srci + min (rooms s.c.i) (g.spt.length - s.srci) =
      min (taken rooms (s.c.i + 1)) g.spt.length := by
    rw [taken_succ, ← hsrci]
    omega
  by_cases hki : k = some s.c.i
  · -- the cursor has come to the builder chosen for the RPT
    obtain ⟨rpt, hrpt, hfit⟩ := hk.rpt_eq_some hki
    have hub : (s.rptUb == some s.c.addr) = true := by
      rw [h.rptUb_eq, hki]
      simp [UBCursor.addr]
    have hsub : sizeSub s.c.deref.remaining (reserve rpt) =
        (ubAt p.ubq s.c.i).remaining - reserve rpt := by
      rw [hderef]
      refine sizeSub_eq (by omega) ?_
      have hadd := h.cursor.sized.remaining_add
      rw [hderef] at hadd
      simp only [JPCapacity] at hadd
      omega
    have hcnt : maxSources (sizeSub s.c.deref.remaining (reserve rpt)) = rooms s.c.i := by
      rw [hsub, maxSources_eq, hrooms, hki, packRooms_eq hrpt]
    have hfilter : k.filter (s.c.i + 1 ≤ ·) = none := by
      rw [hki]
      simp
    simp only [sptBody, hrpt, hub]
    rw [← reserve, hcnt, joinSlice_eq, joinRpt_eq, size_eq, hnext, hfilter]
    rw [hsrci, take_drop_eq_slice]
    conv_rhs => rw [hki, packEntry_eq hrpt]
    rfl
  · have hub : (s.rptUb == some s.c.addr) = false := by
      rw [h.rptUb_eq, beq_eq_false_iff_ne]
      intro he
      exact hki (Option.filter_eq_some_iff.mp he).1
    have hcnt : maxSources s.c.deref.remaining = rooms s.c.i := by
      rw [hderef, maxSources_eq, hrooms, packRooms_of_ne hki]
    have hfilter : s.rptUb = k.filter (s.c.i + 1 ≤ ·) := by
      rw [h.rptUb_eq, filter_succ hki]
    have hslice : (g.spt.drop s.srci).take (min (rooms s.c.i) (g.spt.length - s.srci)) =
        slice rooms g.spt s.c.i := by
      rw [hsrci, take_drop_eq_slice]
    have hbody : sptBody g s = (if min (rooms s.c.i) (g.spt.length - s.srci) > 0 then do
        let c ← s.c.add ⟨g.group, (slice rooms g.spt s.c.i).map sgSource, []⟩
          (GroupEntry.size ⟨g.group, (slice rooms g.spt s.c.i).map sgSource, []⟩)
        return ⟨c.incr, min (taken rooms (s.c.i + 1)) g.spt.length, s.rptUb⟩
      else return { s with c := s.c.incr }) := by
      rw [← hnext, ← hslice, ← hcnt]
      cases hrpt : g.rpt with
      | none => simp only [sptBody, hrpt, joinSlice_eq, size_eq]
      | some rpt => simp only [sptBody, hrpt, hub, joinSlice_eq, size_eq]
    rw [hbody, packEntry_of_ne hki, hfilter]
    by_cases hs : slice rooms g.spt s.c.i = []
    · have hzero : rooms s.c.i = 0 := by
        rcases slice_eq_nil_iff.mp hs with h0 | hle
        · exact h0
        · omega
      rw [if_pos hs, if_neg (by omega)]
      rw [hzero] at hnext
      simp only [CursorOk.addEntry, Outcome.ret_bind, Outcome.pure_eq]
      rw [← hnext, ← hfilter]
      simp
    · have hpos : rooms s.c.i ≠ 0 := fun h0 => hs (slice_eq_nil_iff.mpr (Or.inl h0))
      rw [if_neg hs, if_pos (by omega)]
      rfl

-- A builder stays without an entry only if it is full.
theorem packEntry_none (h : SptInv p g k s) (hk : IsRptUb (ubAt p.ubq) g k)
    (hg : sptGuard g s = true)
    (hnone : packEntry g (packRooms (ubAt p.ubq) g k) k s.c.i = none) :
    s.c.deref.remaining < 20 := by
  have hlt : s.srci < g.spt.length := by simpa [sptGuard] using hg
  have hne : k ≠ some s.c.i := by
    intro hki
    obtain ⟨rpt, hrpt, _⟩ := hk.rpt_eq_some hki
    rw [hki, packEntry_eq hrpt] at hnone
    cases hnone
  rw [packEntry_of_ne hne] at hnone
  have hslice : slice (packRooms (ubAt p.ubq) g k) g.spt s.c.i = [] := by
    by_contra hs
    rw [if_neg hs] at hnone
    cases hnone
  have hroom : packRooms (ubAt p.ubq) g k s.c.i = 0 := by
    have hsrci := h.srci_eq
    rcases slice_eq_nil_iff.mp hslice with h0 | hle
    · exact h0
    · omega
  rw [packRooms_of_ne hne] at hroom
  rw [deref_eq, h.after s.c.i le_rfl]
  omega

-- Builders that are left in the queue, and sources that are left behind it.
def sptVariant (p : UpdatePacker A) (g : GroupConfig A) (s : SptLoop A) : ℕ :=
  (g.spt.length - s.srci) + (p.ubq.length + 1 - s.c.i)

theorem sptBody_spec (hk : IsRptUb (ubAt p.ubq) g k) (hkl : ∀ i ∈ k, i < p.ubq.length)
    (h : SptInv p g k s) (hg : sptGuard g s = true) :
    ∃ u, sptBody g s = .ret u ∧ SptInv p g k u ∧ sptVariant p g u < sptVariant p g s := by
  have hderef : s.c.deref = ubAt p.ubq s.c.i := by rw [deref_eq, h.after s.c.i le_rfl]
  have hfits := packEntry_fits hk s.c.i
  rw [← hderef] at hfits
  obtain ⟨c, hadd, hok, hi, hlen, hat⟩ := h.cursor.step hfits (packEntry_none h hk hg)
  obtain ⟨hbefore, hafter⟩ := put_step h.before h.after hat
  refine ⟨⟨c.incr, min (taken (packRooms (ubAt p.ubq) g k) (s.c.i + 1)) g.spt.length,
    k.filter (s.c.i + 1 ≤ ·)⟩, ?_, ⟨hok, le_trans h.length_le hlen, ?_, ?_, ?_, ?_⟩, ?_⟩
  · rw [sptBody_eq hk h hg, hadd]
    rfl
  · rw [hi]
  · rw [hi]
  · rw [hi]
    exact hbefore
  · rw [hi]
    exact hafter
  · have hlt : s.srci < g.spt.length := by simpa [sptGuard] using hg
    have hsrci := h.srci_eq
    have hmono := taken_succ (packRooms (ubAt p.ubq) g k) s.c.i
    simp only [sptVariant, hi]
    rcases Nat.lt_or_ge s.c.i (p.ubq.length + 1) with hin | hout
    · omega
    · -- behind the queue every builder is empty and takes 181 sources
      have hne : k ≠ some s.c.i := fun he => absurd (hkl _ he) (by omega)
      have hinit : ubAt p.ubq s.c.i = .init := ubAt_of_le (by omega)
      have hroom := packRooms_of_ne (v := ubAt p.ubq) (g := g) hne
      rw [hinit, Sized.init.remaining_eq] at hroom
      have hval : (JPCapacity - (UpdateBuilderImpl.init : UpdateBuilderImpl A).sz - 12) / 8 = 181 := by
        simp [JPCapacity, UpdateBuilderImpl.init]
      rw [hval] at hroom
      omega

-- When the loop is over, the builder that is still to get the RPT lies ahead.
theorem SptInv.rptUb_ahead (h : SptInv p g k s) {j : ℕ} (hub : s.rptUb = some j) :
    k = some j ∧ s.c.i ≤ j := by
  have heq := h.rptUb_eq
  rw [hub] at heq
  simpa using Option.filter_eq_some_iff.mp heq.symm

section Done

variable (h : SptInv p g k s) (hend : sptGuard g s = false)

include h hend

theorem SptInv.all_taken : g.spt.length ≤ taken (packRooms (ubAt p.ubq) g k) s.c.i := by
  have hge : g.spt.length ≤ s.srci := by simpa [sptGuard] using hend
  have hsrci := h.srci_eq
  omega

theorem SptInv.slice_ahead {i : ℕ} (hi : s.c.i ≤ i) :
    slice (packRooms (ubAt p.ubq) g k) g.spt i = [] :=
  slice_eq_nil_of_le (le_trans (h.all_taken hend) (taken_mono _ hi))

theorem SptInv.placed {i : ℕ} (hne : s.rptUb ≠ some i) : ubAt s.c.ubq i =
    put (ubAt p.ubq i) (packEntry g (packRooms (ubAt p.ubq) g k) k i) := by
  rcases Nat.lt_or_ge i s.c.i with hlt | hge
  · exact h.before i hlt
  · have hki : k ≠ some i := by
      intro he
      apply hne
      rw [h.rptUb_eq, he]
      simpa using hge
    rw [h.after i hge, packEntry_of_ne hki, if_pos (h.slice_ahead hend hge)]
    rfl

end Done

end Loop

/-- `fitGroup` returns, and leaves `packEntry` in every builder. -/
theorem fitGroup_spec {p : UpdatePacker A} {g : GroupConfig A} (hp : Ready p)
    (hlim : PruneLimit g) :
    ∃ p' k, Returns (fun fuel => fitGroup fuel p g) p' ∧ Ready p' ∧
      IsRptUb (ubAt p.ubq) g k ∧ (∀ i ∈ k, i < p'.ubq.length) ∧
      g.spt.length ≤ taken (packRooms (ubAt p.ubq) g k) p'.ubq.length ∧
      p.ubq.length ≤ p'.ubq.length ∧
      ∀ i, ubAt p'.ubq i = put (ubAt p.ubq i) (packEntry g (packRooms (ubAt p.ubq) g k) k i) := by
  obtain ⟨q, k, hfind, hq, hqat, hlen, hk, hkl⟩ := findRptUb_spec hp hlim
  have hqp : ubAt q.ubq = ubAt p.ubq := funext hqat
  have hkq : IsRptUb (ubAt q.ubq) g k := by
    rw [hqp]
    exact hk
  obtain ⟨s, hloop, hs, hg⟩ := whileLoop_total (SptInv q g k) (sptVariant q g)
    (fun s h hg => sptBody_spec hkq (fun i hi => (hkl i hi).2) h hg)
    ⟨UBCursor.mk' q, 0, k⟩ (sptInv_entry hq fun i hi => (hkl i hi).1)
  rw [← hqp]
  have htaken : g.spt.length ≤ taken (packRooms (ubAt q.ubq) g k) s.c.ubq.length :=
    le_trans (hs.all_taken hg) (taken_mono _ hs.cursor.lt_length.le)
  have hlen' : p.ubq.length ≤ s.c.ubq.length := le_trans hlen hs.length_le
  cases hub : s.rptUb with
  | none =>
    refine ⟨s.c.packer, k, ?_, hs.cursor.ready, hkq,
      fun i hi => lt_of_lt_of_le (hkl i hi).2 hs.length_le, htaken, hlen', fun i => ?_⟩
    · unfold fitGroup
      refine hfind.bind (hloop.bind (Returns.of_eq fun fuel => ?_))
      simp only [hub]
      cases g.rpt <;> rfl
    · exact hs.placed hg (by rw [hub]; exact fun he => by cases he)
  | some j =>
    have hkj : k = some j ∧ s.c.i ≤ j := hs.rptUb_ahead hub
    obtain ⟨rpt, hrpt, _⟩ := hkq.rpt_eq_some hkj.1
    have hjlt : j < s.c.ubq.length := lt_of_lt_of_le (hkl j hkj.1).2 hs.length_le
    have hentry : packEntry g (packRooms (ubAt q.ubq) g k) k j =
        some ⟨g.group, [rpSource rpt.rp], rpt.prunes.map rptSource⟩ := by
      conv_lhs => rw [hkj.1, packEntry_eq hrpt, ← hkj.1, hs.slice_ahead hg hkj.2]
      rfl
    have hat : ubAt s.c.ubq j = ubAt q.ubq j := hs.after j hkj.2
    have hge : GroupEntry.size ⟨g.group, [rpSource rpt.rp], rpt.prunes.map rptSource⟩ ≤
        (ubAt s.c.ubq j).remaining := by
      rw [hat]
      exact packEntry_fits hkq j _ hentry
    have hadd := ((hs.cursor.ready.sized j).add_put hge).1
    refine ⟨_, k, ?_, hs.cursor.ready.set hjlt hge, hkq, fun i hi => ?_, ?_, ?_, fun i => ?_⟩
    · unfold fitGroup
      refine hfind.bind (hloop.bind (Returns.of_eq fun fuel => ?_))
      simp only [hub, hrpt]
      rw [ofGroup, joinRpt_eq, size_eq]
      show ((ubAt s.c.ubq j).add _ _ >>= _) = _
      rw [List.nil_append]
      show ((ubAt s.c.packer.ubq j).add _ _ >>= _) = _
      rw [hadd]
      rfl
    · rw [List.length_set]
      exact lt_of_lt_of_le (hkl i hi).2 hs.length_le
    · rw [List.length_set]
      exact htaken
    · rw [List.length_set]
      exact hlen'
    · show ubAt (s.c.ubq.set j _) i = _
      rw [ubAt_set hjlt]
      split_ifs with hij
      · rw [hij, hentry]
        exact congrArg (put · _) hat
      · exact hs.placed hg (by rw [hub]; exact fun he => hij (Option.some.inj he).symm)

end Pimc.UpdatePacker
