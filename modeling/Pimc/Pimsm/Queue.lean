import Mathlib.Data.List.GetD
import Pimc.Pimsm.UBCursor

/-!
# The builder queue

Both packers keep the same queue. `Ready` is what holds of it whenever a packer
evaluates a loop condition: sizes are exact and fit, only the last builder may
be empty, and every builder before the start index is full. Behind the end of
the queue `ubAt` shows the empty builders that a cursor would append, so that
appending one changes no builder.
-/

namespace Pimc

open Lib Params

variable {A : Type}

def ubAt (q : List (UpdateBuilderImpl A)) (i : ℕ) : UpdateBuilderImpl A := q.getD i .init

theorem deref_eq (c : UBCursor A) : c.deref = ubAt c.ubq c.i := rfl

theorem ubAt_of_lt {q : List (UpdateBuilderImpl A)} {i : ℕ} (h : i < q.length) :
    ubAt q i = q[i] := List.getD_eq_getElem q .init h

theorem ubAt_of_le {q : List (UpdateBuilderImpl A)} {i : ℕ} (h : q.length ≤ i) :
    ubAt q i = .init := List.getD_eq_default q .init h

theorem ubAt_append_init (q : List (UpdateBuilderImpl A)) (i : ℕ) :
    ubAt (q ++ [.init]) i = ubAt q i := by
  rcases Nat.lt_or_ge i q.length with h | h
  · exact List.getD_append q [.init] .init i h
  · rw [ubAt_of_le h]
    unfold ubAt
    rw [List.getD_append_right q [.init] .init i h]
    cases hk : i - q.length with
    | zero => rfl
    | succ k => rfl

theorem ubAt_set {q : List (UpdateBuilderImpl A)} {k : ℕ} (h : k < q.length)
    (ub : UpdateBuilderImpl A) (i : ℕ) :
    ubAt (q.set k ub) i = if i = k then ub else ubAt q i := by
  unfold ubAt
  simp only [List.getD_eq_getElem?_getD, List.getElem?_set]
  split_ifs with h1 h2 h3
  · rfl
  · omega
  · omega
  · rfl

/-! ### Builders -/

-- What adding an entry makes of a builder.
def put (ub : UpdateBuilderImpl A) : Option (GroupEntry A) → UpdateBuilderImpl A
  | none => ub
  | some ge => ⟨ub.groups ++ [ge], ub.sz + ge.size⟩

@[simp] theorem put_groups (ub : UpdateBuilderImpl A) (e : Option (GroupEntry A)) :
    (put ub e).groups = ub.groups ++ e.toList := by
  cases e with
  | none => simp [put]
  | some ge => rfl

theorem Sized.add_put {ub : UpdateBuilderImpl A} (h : Sized ub) {ge : GroupEntry A}
    (hge : ge.size ≤ ub.remaining) :
    ub.add ge ge.size = .ret (put ub (some ge)) ∧ Sized (put ub (some ge)) := h.add hge

theorem Sized.remaining_put_le {ub : UpdateBuilderImpl A} (h : Sized ub) {ge : GroupEntry A}
    (hge : ge.size ≤ ub.remaining) : (put ub (some ge)).remaining ≤ ub.remaining := by
  have h1 := h.remaining_add
  have h2 := (h.add_put hge).2.remaining_add
  simp only [put] at h2 ⊢
  omega

theorem Sized.groups_ne_nil {ub : UpdateBuilderImpl A} (h : Sized ub)
    (hrem : ub.remaining < JPCapacity) : ub.groups ≠ [] := by
  intro hnil
  have hsz := h.sz_eq
  have hadd := h.remaining_add
  rw [hnil] at hsz
  simp only [entriesSize, List.map_nil, List.sum_nil] at hsz
  omega

theorem Sized.full_iff {ub : UpdateBuilderImpl A} : ub.full = true ↔ ub.remaining < 20 := by
  simp only [UpdateBuilderImpl.full, decide_eq_true_eq]
  exact Iff.rfl

/-! ### The invariant of the queue -/

structure Ready (p : UpdatePacker A) : Prop where
  start_lt : p.start < p.ubq.length
  full_before : ∀ i < p.start, (ubAt p.ubq i).remaining < 20
  sized : ∀ i, Sized (ubAt p.ubq i)
  nonempty : ∀ i, i + 1 < p.ubq.length → (ubAt p.ubq i).groups ≠ []

theorem ready_init : Ready (UpdatePacker.init : UpdatePacker A) where
  start_lt := Nat.zero_lt_one
  full_before := by
    intro i hi
    exact absurd hi (Nat.not_lt_zero i)
  sized := by
    intro i
    cases i with
    | zero => exact Sized.init
    | succ i => exact Sized.init
  nonempty := by
    intro i hi
    simp only [UpdatePacker.init, List.length_singleton] at hi
    omega

/-- An entry that fits may be put into any builder. -/
theorem Ready.set {p : UpdatePacker A} (h : Ready p) {k : ℕ} (hk : k < p.ubq.length)
    {ge : GroupEntry A} (hge : ge.size ≤ (ubAt p.ubq k).remaining) :
    Ready { p with ubq := p.ubq.set k (put (ubAt p.ubq k) (some ge)) } := by
  have hat := ubAt_set hk (put (ubAt p.ubq k) (some ge))
  refine ⟨?_, ?_, ?_, ?_⟩
  · show p.start < (p.ubq.set k _).length
    rw [List.length_set]
    exact h.start_lt
  · intro i hi
    have hfull := h.full_before i hi
    show (ubAt (p.ubq.set k _) i).remaining < 20
    rw [hat]
    split_ifs with hik
    · have hle := (h.sized k).remaining_put_le hge
      rw [hik] at hfull
      omega
    · exact hfull
  · intro i
    show Sized (ubAt (p.ubq.set k _) i)
    rw [hat]
    split_ifs with hik
    · exact ((h.sized k).add_put hge).2
    · exact h.sized i
  · intro i hi
    have hi' : i + 1 < p.ubq.length := by simpa using hi
    show (ubAt (p.ubq.set k _) i).groups ≠ []
    rw [hat]
    split_ifs with hik
    · simp
    · exact h.nonempty i hi'

-- The cursor stands on a builder of a queue in order.
structure CursorOk (c : UBCursor A) : Prop where
  ready : Ready c.packer
  start_le : c.start ≤ c.i
  lt_length : c.i < c.ubq.length

theorem cursorOk_mk {p : UpdatePacker A} (h : Ready p) : CursorOk (UBCursor.mk' p) :=
  ⟨h, le_rfl, h.start_lt⟩

namespace CursorOk

variable {c : UBCursor A}

theorem sized (h : CursorOk c) : Sized c.deref := h.ready.sized c.i

/-! ### `operator++` -/

theorem incr_ubAt (c : UBCursor A) (i : ℕ) : ubAt c.incr.ubq i = ubAt c.ubq i := by
  unfold UBCursor.incr
  split
  · exact ubAt_append_init c.ubq i
  · rfl

theorem incr_i (c : UBCursor A) : c.incr.i = c.i + 1 := by
  unfold UBCursor.incr
  split <;> rfl

theorem incr_start (c : UBCursor A) : c.incr.start = c.start := by
  unfold UBCursor.incr
  split <;> rfl

theorem incr_length (c : UBCursor A) (h : c.i < c.ubq.length) :
    c.incr.ubq.length = max c.ubq.length (c.i + 2) := by
  unfold UBCursor.incr
  split
  · simp only [List.length_append, List.length_singleton]
    omega
  · show c.ubq.length = _
    omega

-- The builder under the cursor is left behind, so it may not be empty.
theorem incr (h : CursorOk c) (hne : c.deref.groups ≠ []) : CursorOk c.incr where
  ready := by
    have hlen := incr_length c h.lt_length
    refine ⟨?_, ?_, ?_, ?_⟩
    · show c.incr.start < c.incr.ubq.length
      rw [incr_start, hlen]
      have := h.start_le
      omega
    · intro i hi
      show (ubAt c.incr.ubq i).remaining < 20
      rw [incr_ubAt]
      have hi' : i < c.start := by
        rw [← incr_start c]
        exact hi
      exact h.ready.full_before i hi'
    · intro i
      show Sized (ubAt c.incr.ubq i)
      rw [incr_ubAt]
      exact h.ready.sized i
    · intro i hi
      show (ubAt c.incr.ubq i).groups ≠ []
      rw [incr_ubAt]
      have hi' : i + 1 < max c.ubq.length (c.i + 2) := by
        rw [← hlen]
        exact hi
      by_cases hic : i = c.i
      · rw [hic]
        exact hne
      · have hlt := h.lt_length
        exact h.ready.nonempty i (by show i + 1 < c.ubq.length; omega)
  start_le := by
    rw [incr_start, incr_i]
    exact Nat.le_succ_of_le h.start_le
  lt_length := by
    rw [incr_i, incr_length c h.lt_length]
    omega

/-! ### `updateStart` -/

/-- The loop moves the start index within the indexes it visits, over full builders only. -/
theorem updateStartLoop_spec (n j : ℕ) (c : UBCursor A) (hs : c.start < c.ubq.length)
    (hn : j + n ≤ c.ubq.length) :
    ∃ s, UBCursor.updateStartLoop n j c = { c with start := s } ∧
      (s = c.start ∨ j ≤ s ∧ s < j + n ∧
        ∀ m, j ≤ m → m ≤ s → (ubAt c.ubq m).remaining < 20) := by
  induction n generalizing j c with
  | zero =>
    refine ⟨c.start, ?_, Or.inl rfl⟩
    have hne : c.start ≠ c.ubq.length := by omega
    simp [UBCursor.updateStartLoop, hne]
  | succ n ih =>
    by_cases hfull : (c.ubq.getD j .init).full = true
    · have hj : (ubAt c.ubq j).remaining < 20 := Sized.full_iff.mp hfull
      obtain ⟨s, heq, hcase⟩ := ih (j + 1) { c with start := j }
        (by show j < c.ubq.length; omega) (by show j + 1 + n ≤ c.ubq.length; omega)
      refine ⟨s, ?_, Or.inr ?_⟩
      · simp only [UBCursor.updateStartLoop, hfull, if_true]
        exact heq
      · rcases hcase with rfl | ⟨hlo, hhi, hall⟩
        · refine ⟨le_rfl, Nat.lt_add_of_pos_right (Nat.succ_pos n), fun m h1 h2 => ?_⟩
          rw [le_antisymm h2 h1]
          exact hj
        · refine ⟨by omega, by omega, fun m h1 h2 => ?_⟩
          rcases Nat.lt_or_ge j m with hlt | hge
          · exact hall m hlt h2
          · rw [le_antisymm hge h1]
            exact hj
    · refine ⟨c.start, ?_, Or.inl rfl⟩
      simp only [UBCursor.updateStartLoop, hfull]
      simp

/-- The branch that appends a builder is not taken: only the start index changes. -/
theorem updateStart_spec (hs : c.start ≤ c.i) (hi : c.i < c.ubq.length)
    (hfull : ∀ i < c.start, (ubAt c.ubq i).remaining < 20) :
    ∃ s, c.updateStart = { c with start := s } ∧ s ≤ c.i ∧
      ∀ i < s, (ubAt c.ubq i).remaining < 20 := by
  obtain ⟨s, heq, hcase⟩ := updateStartLoop_spec (c.i + 1 - c.start) c.start c (by omega) (by omega)
  refine ⟨s, heq, ?_, ?_⟩
  · rcases hcase with rfl | ⟨_, hlt, _⟩
    · exact hs
    · omega
  · intro i hi'
    rcases hcase with rfl | ⟨_, _, hall⟩
    · exact hfull i hi'
    · rcases Nat.lt_or_ge i c.start with hlt | hge
      · exact hfull i hlt
      · exact hall i hge (by omega)

/-! ### `add` -/

/-- An entry that fits is put into the builder under the cursor and nowhere else. -/
theorem add (h : CursorOk c) {ge : GroupEntry A} (hge : ge.size ≤ c.deref.remaining) :
    ∃ c', c.add ge ge.size = .ret c' ∧ CursorOk c' ∧ c'.i = c.i ∧
      c'.ubq.length = c.ubq.length ∧
      ∀ i, ubAt c'.ubq i = put (ubAt c.ubq i) (if i = c.i then some ge else none) := by
  have hadd := (h.sized.add_put hge).1
  have hready := h.ready.set h.lt_length hge
  have hlen : (c.ubq.set c.i (put c.deref (some ge))).length = c.ubq.length := List.length_set
  obtain ⟨s, heq, hs, hfull⟩ := updateStart_spec
    (c := { c with ubq := c.ubq.set c.i (put c.deref (some ge)) }) h.start_le
    (by rw [hlen]; exact h.lt_length) hready.full_before
  have hslt : s < (c.ubq.set c.i (put c.deref (some ge))).length := by
    rw [hlen]
    exact lt_of_le_of_lt hs h.lt_length
  refine ⟨⟨c.ubq.set c.i (put c.deref (some ge)), s, c.i⟩, ?_,
    ⟨⟨hslt, hfull, hready.sized, hready.nonempty⟩, hs, ?_⟩, rfl, hlen, ?_⟩
  · simp only [UBCursor.add, hadd, Outcome.ret_bind, Outcome.pure_eq]
    rw [heq]
  · rw [hlen]
    exact h.lt_length
  · intro i
    rw [ubAt_set h.lt_length]
    split_ifs with hi
    · rw [hi]
      rfl
    · rfl

/-! ### One builder of a loop over the queue -/

-- The builder under the cursor may be left without an entry.
def addEntry (c : UBCursor A) : Option (GroupEntry A) → Outcome String (UBCursor A)
  | none => .ret c
  | some ge => c.add ge ge.size

theorem addEntry_spec (h : CursorOk c) {e : Option (GroupEntry A)}
    (he : ∀ ge ∈ e, ge.size ≤ c.deref.remaining) :
    ∃ c', addEntry c e = .ret c' ∧ CursorOk c' ∧ c'.i = c.i ∧
      c'.ubq.length = c.ubq.length ∧
      ∀ i, ubAt c'.ubq i = put (ubAt c.ubq i) (if i = c.i then e else none) := by
  cases e with
  | none =>
    refine ⟨c, rfl, h, rfl, rfl, fun i => ?_⟩
    rw [ite_self]
    rfl
  | some ge => exact h.add (he ge rfl)

/-- An entry for the builder under the cursor, then `++c`. A builder that gets
no entry must be full, since it is left behind. -/
theorem step (h : CursorOk c) {e : Option (GroupEntry A)}
    (he : ∀ ge ∈ e, ge.size ≤ c.deref.remaining) (hnone : e = none → c.deref.remaining < 20) :
    ∃ c', addEntry c e = .ret c' ∧ CursorOk c'.incr ∧ c'.incr.i = c.i + 1 ∧
      c.ubq.length ≤ c'.incr.ubq.length ∧
      ∀ i, ubAt c'.incr.ubq i = put (ubAt c.ubq i) (if i = c.i then e else none) := by
  obtain ⟨c', hadd, hok, hi, hlen, hat⟩ := h.addEntry_spec he
  have hne : c'.deref.groups ≠ [] := by
    rw [deref_eq, hi, hat, if_pos rfl, put_groups]
    cases e with
    | none =>
      have hlt : c.deref.remaining < JPCapacity := lt_trans (hnone rfl) (by decide)
      have hne := h.sized.groups_ne_nil hlt
      exact fun hnil => hne (List.append_eq_nil_iff.mp hnil).1
    | some ge => simp
  refine ⟨c', hadd, hok.incr hne, ?_, ?_, ?_⟩
  · rw [incr_i, hi]
  · rw [incr_length c' hok.lt_length, hlen]
    exact le_max_left _ _
  · intro i
    rw [incr_ubAt, hat]

end CursorOk

/-- The builders before index `n` have got their entries and the others are untouched; the builder
at `n` gets its entry next. -/
theorem put_step {p q r : ℕ → UpdateBuilderImpl A} {e : ℕ → Option (GroupEntry A)} {n : ℕ}
    (hbefore : ∀ i < n, q i = put (p i) (e i)) (hafter : ∀ i, n ≤ i → q i = p i)
    (hat : ∀ i, r i = put (q i) (if i = n then e n else none)) :
    (∀ i < n + 1, r i = put (p i) (e i)) ∧ ∀ i, n + 1 ≤ i → r i = p i := by
  refine ⟨fun i hlt => ?_, fun i hle => ?_⟩
  · rw [hat]
    by_cases hin : i = n
    · rw [if_pos hin, hin, hafter n le_rfl]
    · rw [if_neg hin, hbefore i (by omega)]
      rfl
  · rw [hat, if_neg (by omega), hafter i (by omega)]
    rfl

/-! ### Searching for room

`UpdatePacker::findRptUb` and the end of `InverseUpdatePacker::fitGroup` run the
cursor to the first builder with `need` bytes left.
-/

structure SearchInv (p : UpdatePacker A) (need : ℕ) (c : UBCursor A) : Prop where
  cursor : CursorOk c
  ubAt_eq : ∀ i, ubAt c.ubq i = ubAt p.ubq i
  length_le : p.ubq.length ≤ c.ubq.length
  before : ∀ i < c.i, (ubAt p.ubq i).remaining < need

theorem searchInv_mk {p : UpdatePacker A} (h : Ready p) {need : ℕ} (hneed : 20 ≤ need) :
    SearchInv p need (UBCursor.mk' p) := by
  refine ⟨cursorOk_mk h, fun _ => rfl, le_rfl, ?_⟩
  intro i hi
  have hlt := h.full_before i hi
  omega

theorem SearchInv.step {p : UpdatePacker A} {need : ℕ} {c : UBCursor A} (h : SearchInv p need c)
    (hneed : need ≤ JPCapacity) (hc : c.deref.remaining < need) :
    SearchInv p need c.incr ∧ c.i < p.ubq.length := by
  have hrem : (ubAt p.ubq c.i).remaining < need := by
    rw [← h.ubAt_eq, ← deref_eq]
    exact hc
  have hci : c.i < p.ubq.length := by
    by_contra hge
    rw [ubAt_of_le (Nat.le_of_not_lt hge), Sized.init.remaining_eq] at hrem
    exact absurd hrem (Nat.not_lt.mpr hneed)
  have hne : c.deref.groups ≠ [] :=
    h.cursor.sized.groups_ne_nil (lt_of_lt_of_le hc hneed)
  refine ⟨⟨h.cursor.incr hne, ?_, ?_, ?_⟩, hci⟩
  · intro i
    rw [CursorOk.incr_ubAt, h.ubAt_eq]
  · rw [CursorOk.incr_length c h.cursor.lt_length]
    exact le_max_of_le_left h.length_le
  · intro i hi
    rw [CursorOk.incr_i] at hi
    rcases Nat.lt_succ_iff_lt_or_eq.mp hi with hlt | rfl
    · exact h.before i hlt
    · exact hrem

def searchVariant (p : UpdatePacker A) (c : UBCursor A) : ℕ := p.ubq.length + 1 - c.i

section Search

variable {p : UpdatePacker A} {need : ℕ} {guard : UBCursor A → Bool}

theorem search_step (hneed : need ≤ JPCapacity)
    (hguard : ∀ c, guard c = true ↔ c.deref.remaining < need) (c : UBCursor A)
    (h : SearchInv p need c) (hg : guard c = true) :
    ∃ d, c.searchBody = .ret d ∧ SearchInv p need d ∧
      searchVariant p d < searchVariant p c := by
  obtain ⟨hinv, hlt⟩ := h.step hneed ((hguard c).mp hg)
  refine ⟨c.incr, rfl, hinv, ?_⟩
  unfold searchVariant
  rw [CursorOk.incr_i]
  omega

/-- Searching appends at most empty builders, and it ends at the first one with room. -/
theorem search_spec (hneed : need ≤ JPCapacity)
    (hguard : ∀ c, guard c = true ↔ c.deref.remaining < need) (c : UBCursor A)
    (h : SearchInv p need c) :
    ∃ d, Returns (fun fuel => whileLoop guard UBCursor.searchBody fuel c) d ∧
      SearchInv p need d ∧ need ≤ (ubAt p.ubq d.i).remaining := by
  obtain ⟨d, hret, hinv, hg⟩ := whileLoop_total (SearchInv p need)
    (searchVariant p) (search_step hneed hguard) c h
  refine ⟨d, hret, hinv, ?_⟩
  rw [← hinv.ubAt_eq, ← deref_eq]
  by_contra hlt
  have htrue := (hguard d).mpr (Nat.lt_of_not_le hlt)
  rw [hg] at htrue
  cases htrue

end Search

end Pimc
