import Pimc.Pimsm.Capacity

/-!
# The start index

A builder before the start index is full and takes no entry on any path of the
packers, so cursors that start at index 0 come to the same updates. The start
index of the packer is set to 0 whenever a group is begun: nothing moves it
before the cursors of the group are made.
-/

namespace Pimc

open Lib Params GroupEntryBuilderImpl

variable {A : Type}

/-! ### Every cursor at index 0 -/

def UpdatePacker.rewind (p : UpdatePacker A) : UpdatePacker A := { p with start := 0 }

def packRewound (fuel : ℕ) (jpCfg : JPConfig A) : Outcome String (List (Update A)) := do
  let up ← jpCfg.groups.foldlM (fun p ge => UpdatePacker.fitGroup fuel p.rewind ge)
    UpdatePacker.init
  return up.build

def inversePackRewound (fuel : ℕ) (jpCfg : JPConfig A) : Outcome String (List (Update A)) := do
  let up ← jpCfg.groups.foldlM (fun p ge => InverseUpdatePacker.fitGroup fuel p.rewind ge)
    UpdatePacker.init
  return up.build

theorem Ready.rewind {p : UpdatePacker A} (h : Ready p) : Ready p.rewind where
  start_lt := lt_of_le_of_lt (Nat.zero_le _) h.start_lt
  full_before := fun i hi => absurd hi (Nat.not_lt_zero i)
  sized := h.sized
  nonempty := h.nonempty

/-! ### Packers with the same builders -/

structure Alike (p q : UpdatePacker A) : Prop where
  left : Ready p
  right : Ready q
  ubAt_eq : ubAt p.ubq = ubAt q.ubq

theorem alike_init : Alike (UpdatePacker.init : UpdatePacker A) UpdatePacker.init :=
  ⟨ready_init, ready_init, rfl⟩

namespace Alike

variable {p q : UpdatePacker A}

/-- Trailing empty builders are not built. -/
theorem build_eq (h : Alike p q) : p.build = q.build := by
  obtain ⟨n, hn, hbuild, hne, hnil⟩ := h.left.build_eq
  obtain ⟨m, hm, hbuild', hne', hnil'⟩ := h.right.build_eq
  have hnm : n = m := by
    rcases Nat.lt_trichotomy n m with hlt | heq | hgt
    · have hempty := hnil n le_rfl
      rw [h.ubAt_eq] at hempty
      exact absurd hempty (hne' n hlt)
    · exact heq
    · have hempty := hnil' m le_rfl
      rw [← h.ubAt_eq] at hempty
      exact absurd hempty (hne m hgt)
  subst hnm
  rw [hbuild, hbuild']
  congr 1
  apply List.ext_getElem
  · rw [List.length_take, List.length_take]
    omega
  · intro i hi hi'
    rw [List.length_take] at hi hi'
    rw [List.getElem_take, List.getElem_take, ← ubAt_of_lt, ← ubAt_of_lt, h.ubAt_eq]

theorem fitGroup (h : Alike p q) {g : GroupConfig A} (hlim : UpdatePacker.PruneLimit g) :
    ∃ p' q', Returns (fun fuel => UpdatePacker.fitGroup fuel p g) p' ∧
      Returns (fun fuel => UpdatePacker.fitGroup fuel q g) q' ∧ Alike p' q' := by
  obtain ⟨p', k, hret, hready, hk, _, _, _, hat⟩ := UpdatePacker.fitGroup_spec h.left hlim
  obtain ⟨q', k', hret', hready', hk', _, _, _, hat'⟩ := UpdatePacker.fitGroup_spec h.right hlim
  rw [← h.ubAt_eq] at hk' hat'
  have hkk := hk.unique hk'
  subst hkk
  exact ⟨p', q', hret, hret', hready, hready', funext fun i => (hat i).trans (hat' i).symm⟩

theorem inverseFitGroup (h : Alike p q) (g : GroupConfig A) :
    ∃ p' q', Returns (fun fuel => InverseUpdatePacker.fitGroup fuel p g) p' ∧
      Returns (fun fuel => InverseUpdatePacker.fitGroup fuel q g) q' ∧ Alike p' q' := by
  obtain ⟨lost, hlost⟩ :=
    InverseUpdatePacker.exists_lost g (InverseUpdatePacker.inverseRooms (ubAt p.ubq))
  obtain ⟨p', hret, hready, _, _, hat⟩ := InverseUpdatePacker.fitGroup_spec h.left hlost
  rw [h.ubAt_eq] at hlost hat
  obtain ⟨q', hret', hready', _, _, hat'⟩ := InverseUpdatePacker.fitGroup_spec h.right hlost
  exact ⟨p', q', hret, hret', hready, hready', funext fun i => (hat i).trans (hat' i).symm⟩

theorem rewind (h : Alike p q) : Alike p q.rewind := ⟨h.left, h.right.rewind, h.ubAt_eq⟩

end Alike

/-! ### The states of `updateStart` -/

/-- A run of `updateStart` on `c` comes to index `j` in the state `d`, with `n` indexes up to `i_`
left; with none left it compares the start index with the size of the queue. -/
inductive UpdateReach (c : UBCursor A) : ℕ → ℕ → UBCursor A → Prop where
  | entry : UpdateReach c (c.i + 1 - c.start) c.start c
  | next {n j : ℕ} {d : UBCursor A} (h : UpdateReach c (n + 1) j d)
      (hfull : (d.ubq.getD j .init).full = true) : UpdateReach c n (j + 1) { d with start := j }

/-- The loop goes on from such a state as it does from the beginning. -/
theorem UpdateReach.updateStart_eq {c d : UBCursor A} {n j : ℕ} (h : UpdateReach c n j d) :
    c.updateStart = UBCursor.updateStartLoop n j d := by
  induction h with
  | entry => rfl
  | next h hfull ih =>
    rw [ih, UBCursor.updateStartLoop, if_pos hfull]

-- The start index is valid and no room for an entry is left before it.
structure StartOk (p : UpdatePacker A) : Prop where
  lt_length : p.start < p.ubq.length
  full_before : ∀ i < p.start, (ubAt p.ubq i).remaining < 20

theorem Ready.startOk {p : UpdatePacker A} (h : Ready p) : StartOk p := ⟨h.start_lt, h.full_before⟩

theorem UpdateReach.spec {c d : UBCursor A} {n j : ℕ} (h : UpdateReach c n j d)
    (hs : c.start ≤ c.i) (hfull : ∀ i < c.start, (ubAt c.ubq i).remaining < 20) :
    d.ubq = c.ubq ∧ j + n = c.i + 1 ∧ d.start ≤ j ∧ d.start ≤ c.i ∧
      ∀ i < j, (ubAt c.ubq i).remaining < 20 := by
  induction h with
  | entry => exact ⟨rfl, by omega, le_rfl, hs, hfull⟩
  | @next n j d h hfullj ih =>
    obtain ⟨hubq, hcount, _, _, hbefore⟩ := ih
    rw [hubq] at hfullj
    refine ⟨hubq, by omega, Nat.le_succ j, by show j ≤ c.i; omega, fun i hlt => ?_⟩
    rcases Nat.lt_succ_iff_lt_or_eq.mp hlt with hlt | rfl
    · exact hbefore i hlt
    · exact Sized.full_iff.mp hfullj

/-! ### The states of a run -/

/-- The packers of a run: between two groups, under a cursor that evaluates a loop condition, and
inside `updateStart` after an entry has been added under such a cursor. -/
inductive RunState (between : UpdatePacker A → Prop) (at_ : UBCursor A → Prop) :
    UpdatePacker A → Prop where
  | between {p : UpdatePacker A} (hp : between p) : RunState between at_ p
  | cursor {c : UBCursor A} (hc : at_ c) : RunState between at_ c.packer
  | updating {c d : UBCursor A} {geb : GroupEntry A} {ub : UpdateBuilderImpl A} {n j : ℕ}
      (hc : at_ c) (hadd : c.deref.add geb (size geb) = .ret ub)
      (hd : UpdateReach { c with ubq := c.ubq.set c.i ub } n j d) : RunState between at_ d.packer

/-- An entry is added under such a cursor, and `updateStart` compares the start index of `d` with
the size of the queue. -/
def Compares (at_ : UBCursor A → Prop) (d : UBCursor A) : Prop :=
  ∃ c geb ub j, at_ c ∧ c.deref.add geb (size geb) = .ret ub ∧
    UpdateReach { c with ubq := c.ubq.set c.i ub } 0 j d

theorem add_ret {ub ub' : UpdateBuilderImpl A} (h : Sized ub) {geb : GroupEntry A}
    (hadd : ub.add geb (size geb) = .ret ub') :
    geb.size ≤ ub.remaining ∧ ub' = put ub (some geb) := by
  rw [size_eq] at hadd
  by_cases hfit : ub.sz + geb.size > JPCapacity
  · rw [UpdateBuilderImpl.add, UpdateBuilderImpl.chkSz, if_pos hfit] at hadd
    cases hadd
  · have hrem := h.remaining_add
    have hle : geb.size ≤ ub.remaining := by omega
    rw [(h.add_put hle).1] at hadd
    cases hadd
    exact ⟨hle, rfl⟩

section Cursors

variable {between : UpdatePacker A → Prop} {at_ : UBCursor A → Prop}

theorem updating_spec {c d : UBCursor A} (h : CursorOk c) {geb : GroupEntry A}
    {ub : UpdateBuilderImpl A} (hadd : c.deref.add geb (size geb) = .ret ub) {n j : ℕ}
    (hd : UpdateReach { c with ubq := c.ubq.set c.i ub } n j d) : StartOk d.packer := by
  obtain ⟨hfit, rfl⟩ := add_ret h.sized hadd
  have hready := h.ready.set h.lt_length hfit
  have hlen : (c.ubq.set c.i (put c.deref (some geb))).length = c.ubq.length := List.length_set
  obtain ⟨hubq, _, hj, hi, hbefore⟩ := hd.spec h.start_le hready.full_before
  constructor
  · show d.start < d.ubq.length
    rw [hubq, hlen]
    exact lt_of_le_of_lt hi h.lt_length
  · intro i hlt
    show (ubAt d.ubq i).remaining < 20
    rw [hubq]
    exact hbefore i (lt_of_lt_of_le hlt hj)

theorem RunState.startOk (hbetween : ∀ p, between p → Ready p) (hat : ∀ c, at_ c → CursorOk c)
    {p : UpdatePacker A} (h : RunState between at_ p) : StartOk p := by
  cases h with
  | between hp => exact (hbetween p hp).startOk
  | cursor hc => exact (hat _ hc).ready.startOk
  | updating hc hadd hd => exact updating_spec (hat _ hc) hadd hd

/-- Whenever `updateStart` makes its comparison it fails, so `add` returns with the queue as it
is. -/
theorem Compares.not_taken (hat : ∀ c, at_ c → CursorOk c) {d : UBCursor A}
    (h : Compares at_ d) :
    d.start ≠ d.ubq.length ∧ ∃ c geb, at_ c ∧ c.add geb (size geb) = .ret d := by
  obtain ⟨c, geb, ub, j, hc, hadd, hd⟩ := h
  have hne : d.start ≠ d.ubq.length := (updating_spec (hat c hc) hadd hd).lt_length.ne
  refine ⟨hne, c, geb, hc, ?_⟩
  have hstart : UBCursor.updateStart { c with ubq := c.ubq.set c.i ub } = d := by
    rw [hd.updateStart_eq, UBCursor.updateStartLoop, if_neg hne]
  rw [UBCursor.add, hadd, ← hstart]
  rfl

end Cursors

namespace UpdatePacker

variable {groups : List (GroupConfig A)}

def Between (groups : List (GroupConfig A)) (p : UpdatePacker A) : Prop :=
  ∃ pre post, groups = pre ++ post ∧ Returns (fun fuel => pre.foldlM (fitGroup fuel) init) p

inductive CursorAt (groups : List (GroupConfig A)) : UBCursor A → Prop where
  | search {pre post : List (GroupConfig A)} {g : GroupConfig A} {p : UpdatePacker A}
      {rpt : RPT A} {c : UBCursor A} (hg : groups = pre ++ g :: post)
      (hp : Returns (fun fuel => pre.foldlM (fitGroup fuel) init) p) (hrpt : g.rpt = some rpt)
      (hc : LoopReach (rptGuard rpt) UBCursor.searchBody (UBCursor.mk' p) c) : CursorAt groups c
  | sources {g : GroupConfig A} {s : SptLoop A} (hs : AtSources groups g s) : CursorAt groups s.c

theorem CursorAt.ok [DecidableEq A] (hdist : (groups.map (·.group)).Nodup)
    (hlim : ∀ g ∈ groups, PruneLimit g) {c : UBCursor A} (h : CursorAt groups c) : CursorOk c := by
  cases h with
  | search hg hp hrpt hc => exact search_cursorOk hdist hlim hg hp hrpt hc
  | sources hs => exact hs.cursorOk hdist hlim

end UpdatePacker

namespace InverseUpdatePacker

variable {groups : List (GroupConfig A)}

def Between (groups : List (GroupConfig A)) (p : UpdatePacker A) : Prop :=
  ∃ pre post, groups = pre ++ post ∧
    Returns (fun fuel => pre.foldlM (fitGroup fuel) UpdatePacker.init) p

inductive CursorAt (groups : List (GroupConfig A)) : UBCursor A → Prop where
  | sources {g : GroupConfig A} {s : SptLoop A} (hs : AtSources groups g s) : CursorAt groups s.c
  | search {g : GroupConfig A} {s : SptLoop A} {c : UBCursor A} (hs : AtSources groups g s)
      (hend : sptGuard g s = false) (hprp : s.pruneRP = 1)
      (hc : LoopReach rpGuard UBCursor.searchBody s.c c) : CursorAt groups c

theorem CursorAt.ok [DecidableEq A] (hdist : (groups.map (·.group)).Nodup) {c : UBCursor A}
    (h : CursorAt groups c) : CursorOk c := by
  cases h with
  | sources hs => exact hs.cursorOk hdist
  | search hs hend hprp hc => exact search_cursorOk hdist hs hprp hc

end InverseUpdatePacker

/-! ### Skipping full builders changes nothing -/

section Pack

variable [DecidableEq A]

/-- The start index never costs an update and never leaves the queue. -/
theorem pack_start_index (cfg : JPConfig A) (hdist : cfg.DistinctGroups)
    (hlim : ∀ g ∈ cfg.groups, UpdatePacker.PruneLimit g) :
    (∃ us, Returns (fun fuel => pack fuel cfg) us ∧
      Returns (fun fuel => packRewound fuel cfg) us) ∧
    (∃ us, Returns (fun fuel => inversePack fuel cfg) us ∧
      Returns (fun fuel => inversePackRewound fuel cfg) us) ∧
    (∀ p, RunState (UpdatePacker.Between cfg.groups) (UpdatePacker.CursorAt cfg.groups) p →
      StartOk p) ∧
    (∀ p, RunState (InverseUpdatePacker.Between cfg.groups)
      (InverseUpdatePacker.CursorAt cfg.groups) p → StartOk p) ∧
    (∀ d, Compares (UpdatePacker.CursorAt cfg.groups) d → d.start ≠ d.ubq.length ∧
      ∃ c geb, UpdatePacker.CursorAt cfg.groups c ∧ c.add geb (size geb) = .ret d) ∧
    ∀ d, Compares (InverseUpdatePacker.CursorAt cfg.groups) d → d.start ≠ d.ubq.length ∧
      ∃ c geb, InverseUpdatePacker.CursorAt cfg.groups c ∧ c.add geb (size geb) = .ret d := by
  have hat := fun c (hc : UpdatePacker.CursorAt cfg.groups c) => hc.ok hdist hlim
  have hinverseAt := fun c (hc : InverseUpdatePacker.CursorAt cfg.groups c) => hc.ok hdist
  refine ⟨?_, ?_, ?_, ?_, fun d hd => hd.not_taken hat,
    fun d hd => hd.not_taken hinverseAt⟩
  · obtain ⟨p, q, hp, hq, hpq⟩ := foldlM_related UpdatePacker.fitGroup
      (fun fuel p ge => UpdatePacker.fitGroup fuel p.rewind ge) cfg.groups
      (fun g hg p q hpq => hpq.rewind.fitGroup (hlim g hg)) alike_init
    refine ⟨p.build, hp.bind (Returns.of_eq fun _ => rfl), ?_⟩
    rw [hpq.build_eq]
    exact hq.bind (Returns.of_eq fun _ => rfl)
  · obtain ⟨p, q, hp, hq, hpq⟩ := foldlM_related InverseUpdatePacker.fitGroup
      (fun fuel p ge => InverseUpdatePacker.fitGroup fuel p.rewind ge) cfg.groups
      (fun g _ p q hpq => hpq.rewind.inverseFitGroup g) alike_init
    refine ⟨p.build, hp.bind (Returns.of_eq fun _ => rfl), ?_⟩
    rw [hpq.build_eq]
    exact hq.bind (Returns.of_eq fun _ => rfl)
  · intro p hp
    refine hp.startOk (fun q hq => ?_) hat
    obtain ⟨pre, post, hg, hq⟩ := hq
    exact UpdatePacker.ready_front hdist hlim hg hq
  · intro p hp
    refine hp.startOk (fun q hq => ?_) hinverseAt
    obtain ⟨pre, post, hg, hq⟩ := hq
    exact InverseUpdatePacker.ready_front hdist hg hq

theorem pack_start_index_example : exampleConfig.DistinctGroups ∧
    (∃ us, Returns (fun fuel => pack fuel exampleConfig) us ∧
      Returns (fun fuel => packRewound fuel exampleConfig) us) ∧
    ∃ us, Returns (fun fuel => inversePack fuel exampleConfig) us ∧
      Returns (fun fuel => inversePackRewound fuel exampleConfig) us :=
  have h := pack_start_index exampleConfig (by decide) (by decide)
  ⟨by decide, h.1, h.2.1⟩

end Pack

end Pimc
