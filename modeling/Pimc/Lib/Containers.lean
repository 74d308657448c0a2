import Mathlib.Data.List.Sort

/-!
# Sets and maps

An ordered set is its elements in ascending order. The unordered containers
keep insertion order, which stands for the unspecified order of a hash table.
-/

namespace Pimc.Lib

variable {α β : Type}

/-! ### Ordered sets -/

/-- `std::set`. -/
structure OrdSet (α : Type) [LinearOrder α] where
  toList : List α
  sorted : toList.SortedLT

namespace OrdSet

variable [LinearOrder α]

def empty : OrdSet α := ⟨[], List.sortedLT_iff_pairwise.mpr List.Pairwise.nil⟩

def contains (s : OrdSet α) (a : α) : Bool := decide (a ∈ s.toList)

theorem sorted_insert {l : List α} (h : l.SortedLT) {a : α} (ha : a ∉ l) :
    (l.orderedInsert (· ≤ ·) a).SortedLT := by
  have hle : (l.orderedInsert (· ≤ ·) a).Pairwise (· ≤ ·) :=
    (List.sortedLE_iff_pairwise.mp h.sortedLE).orderedInsert a l
  have hperm := List.perm_orderedInsert (· ≤ ·) a l
  have hnodup : (l.orderedInsert (· ≤ ·) a).Nodup :=
    hperm.nodup_iff.mpr (List.nodup_cons.mpr ⟨ha, h.nodup⟩)
  exact List.sortedLT_iff_pairwise.mpr (hle.imp₂ (fun _ _ h1 h2 => lt_of_le_of_ne h1 h2) hnodup)

/-- `emplace`, and whether the element is new. -/
def emplace (s : OrdSet α) (a : α) : OrdSet α × Bool :=
  if h : a ∈ s.toList then (s, false)
  else (⟨s.toList.orderedInsert (· ≤ ·) a, sorted_insert s.sorted h⟩, true)

theorem contains_iff (s : OrdSet α) (a : α) : s.contains a = true ↔ a ∈ s.toList :=
  decide_eq_true_iff

theorem mem_empty (a : α) : a ∉ (empty : OrdSet α).toList := List.not_mem_nil

theorem emplace_snd (s : OrdSet α) (a : α) : (s.emplace a).2 = !s.contains a := by
  unfold emplace contains
  split_ifs with h
  · simp [h]
  · simp [h]

theorem mem_emplace (s : OrdSet α) (a b : α) :
    b ∈ (s.emplace a).1.toList ↔ b = a ∨ b ∈ s.toList := by
  unfold emplace
  split_ifs with h
  · apply Iff.intro
    · exact Or.inr
    · intro h'
      rcases h' with rfl | hb
      · exact h
      · exact hb
  · exact List.mem_orderedInsert (· ≤ ·)

theorem toList_isEmpty (s : OrdSet α) : s.toList.isEmpty = true ↔ ∀ a, a ∉ s.toList := by
  rw [List.isEmpty_iff, List.eq_nil_iff_forall_not_mem]

-- The elements of a list, one `emplace` after the other.
def insertAll (s : OrdSet α) (l : List α) : OrdSet α := l.foldl (fun s a => (s.emplace a).1) s

theorem mem_insertAll (s : OrdSet α) (l : List α) (b : α) :
    b ∈ (s.insertAll l).toList ↔ b ∈ s.toList ∨ b ∈ l := by
  induction l generalizing s with
  | nil => simp [insertAll]
  | cons a l ih =>
    have hstep : s.insertAll (a :: l) = (s.emplace a).1.insertAll l := rfl
    rw [hstep, ih, mem_emplace, List.mem_cons]
    tauto

end OrdSet

/-! ### Unordered sets -/

/-- `std::unordered_set`. -/
structure UnorderedSet (α : Type) where
  toList : List α
  nodup : toList.Nodup

namespace UnorderedSet

variable [DecidableEq α]

def empty : UnorderedSet α := ⟨[], List.nodup_nil⟩

def contains (s : UnorderedSet α) (a : α) : Bool := decide (a ∈ s.toList)

def emplace (s : UnorderedSet α) (a : α) : UnorderedSet α :=
  if h : a ∈ s.toList then s
  else ⟨s.toList ++ [a], List.nodup_append.mpr ⟨s.nodup, List.nodup_singleton a, by
    intro b hb c hc heq
    rw [List.mem_singleton] at hc
    rw [heq, hc] at hb
    exact h hb⟩⟩

theorem contains_iff (s : UnorderedSet α) (a : α) : s.contains a = true ↔ a ∈ s.toList :=
  decide_eq_true_iff

theorem mem_emplace (s : UnorderedSet α) (a b : α) :
    b ∈ (s.emplace a).toList ↔ b = a ∨ b ∈ s.toList := by
  unfold emplace
  split_ifs with h
  · apply Iff.intro
    · exact Or.inr
    · intro h'
      rcases h' with rfl | hb
      · exact h
      · exact hb
  · rw [List.mem_append, List.mem_singleton]
    exact or_comm

def insertAll (s : UnorderedSet α) (l : List α) : UnorderedSet α := l.foldl emplace s

theorem mem_insertAll (s : UnorderedSet α) (l : List α) (b : α) :
    b ∈ (s.insertAll l).toList ↔ b ∈ s.toList ∨ b ∈ l := by
  induction l generalizing s with
  | nil => simp [insertAll]
  | cons a l ih =>
    have hstep : s.insertAll (a :: l) = (s.emplace a).insertAll l := rfl
    rw [hstep, ih, mem_emplace, List.mem_cons]
    tauto

end UnorderedSet

/-! ### Unordered maps -/

/-- `std::unordered_map`. -/
structure UnorderedMap (κ β : Type) where
  entries : List (κ × β)
  nodup : (entries.map Prod.fst).Nodup

namespace UnorderedMap

variable {κ : Type} [DecidableEq κ]

def empty : UnorderedMap κ β := ⟨[], List.nodup_nil⟩

def keys (m : UnorderedMap κ β) : List κ := m.entries.map Prod.fst

def find? (m : UnorderedMap κ β) (k : κ) : Option β :=
  (m.entries.find? fun e => decide (e.1 = k)).map Prod.snd

/-- `try_emplace`, and whether the key is new. -/
def tryEmplace (m : UnorderedMap κ β) (k : κ) (v : β) : UnorderedMap κ β × Bool :=
  if h : k ∈ m.keys then (m, false)
  else (⟨m.entries ++ [(k, v)], by
    rw [List.map_append]
    refine List.nodup_append.mpr ⟨m.nodup, List.nodup_singleton k, ?_⟩
    intro a ha b hb heq
    rw [List.map_singleton, List.mem_singleton] at hb
    rw [heq, hb] at ha
    exact h ha⟩, true)

/-- Assignment through the reference that a lookup of `k` gives. -/
def modify (m : UnorderedMap κ β) (k : κ) (f : β → β) : UnorderedMap κ β where
  entries := m.entries.map fun e => if e.1 = k then (e.1, f e.2) else e
  nodup := by
    have heq : (m.entries.map fun e => if e.1 = k then (e.1, f e.2) else e).map Prod.fst =
        m.entries.map Prod.fst := by
      rw [List.map_map]
      apply List.map_congr_left
      intro e _
      simp only [Function.comp]
      split_ifs <;> rfl
    rw [heq]
    exact m.nodup

theorem find?_empty (k : κ) : (empty : UnorderedMap κ β).find? k = none := rfl

theorem find?_eq_some {m : UnorderedMap κ β} {k : κ} {v : β} :
    m.find? k = some v ↔ (k, v) ∈ m.entries := by
  obtain ⟨entries, hnodup⟩ := m
  show (entries.find? fun e => decide (e.1 = k)).map Prod.snd = some v ↔ (k, v) ∈ entries
  induction entries with
  | nil => simp
  | cons e entries ih =>
    rw [List.map_cons, List.nodup_cons] at hnodup
    rw [List.find?_cons, List.mem_cons]
    by_cases he : e.1 = k
    · have hnot : (k, v) ∉ entries := by
        intro hin
        exact hnodup.1 (List.mem_map.mpr ⟨(k, v), hin, he.symm⟩)
      simp only [he, decide_true, Option.map_some, Option.some.injEq, hnot, or_false]
      apply Iff.intro
      · intro hv
        rw [← he, ← hv]
      · intro hv
        rw [← hv]
    · have hne : (k, v) ≠ e := by
        intro heq
        rw [← heq] at he
        exact he rfl
      simp only [he, decide_false, hne, false_or]
      exact ih hnodup.2

theorem mem_keys {m : UnorderedMap κ β} {k : κ} : k ∈ m.keys ↔ ∃ v, m.find? k = some v := by
  simp only [find?_eq_some, keys, List.mem_map]
  apply Iff.intro
  · intro h
    obtain ⟨⟨k', v⟩, hin, rfl⟩ := h
    exact ⟨v, hin⟩
  · intro h
    obtain ⟨v, hin⟩ := h
    exact ⟨(k, v), hin, rfl⟩

theorem find?_eq_none {m : UnorderedMap κ β} {k : κ} : m.find? k = none ↔ k ∉ m.keys := by
  rw [mem_keys]
  cases m.find? k <;> simp

theorem tryEmplace_snd (m : UnorderedMap κ β) (k : κ) (v : β) :
    (m.tryEmplace k v).2 = true ↔ k ∉ m.keys := by
  unfold tryEmplace
  split_ifs with h
  · simp [h]
  · simp [h]

theorem find?_tryEmplace (m : UnorderedMap κ β) (k : κ) (v : β) (j : κ) :
    (m.tryEmplace k v).1.find? j = if j = k then some ((m.find? k).getD v) else m.find? j := by
  unfold tryEmplace
  split_ifs with h hj hj
  · obtain ⟨w, hw⟩ := mem_keys.mp h
    rw [hj, hw]
    rfl
  · rfl
  · have hnone := find?_eq_none.mpr h
    rw [hj, hnone, find?_eq_some]
    exact List.mem_append_right _ (List.mem_singleton.mpr rfl)
  · apply Option.ext
    intro w
    have hne : (j, w) ≠ (k, v) := fun heq => hj (Prod.mk.inj heq).1
    rw [find?_eq_some, find?_eq_some, List.mem_append, List.mem_singleton, or_iff_left hne]

theorem keys_tryEmplace (m : UnorderedMap κ β) (k : κ) (v : β) :
    (m.tryEmplace k v).1.keys = if k ∈ m.keys then m.keys else m.keys ++ [k] := by
  unfold tryEmplace
  split_ifs with h
  · rfl
  · exact List.map_append

theorem keys_modify (m : UnorderedMap κ β) (k : κ) (f : β → β) : (m.modify k f).keys = m.keys := by
  show (m.entries.map fun e => if e.1 = k then (e.1, f e.2) else e).map Prod.fst = _
  rw [List.map_map]
  apply List.map_congr_left
  intro e _
  simp only [Function.comp]
  split_ifs <;> rfl

theorem find?_modify (m : UnorderedMap κ β) (k : κ) (f : β → β) (j : κ) :
    (m.modify k f).find? j = if j = k then (m.find? k).map f else m.find? j := by
  apply Option.ext
  intro w
  have hmem : (j, w) ∈ (m.modify k f).entries ↔
      ∃ v, (j, v) ∈ m.entries ∧ w = if j = k then f v else v := by
    show (j, w) ∈ m.entries.map (fun e => if e.1 = k then (e.1, f e.2) else e) ↔ _
    rw [List.mem_map]
    apply Iff.intro
    · intro h
      obtain ⟨⟨k', v⟩, hin, heq⟩ := h
      split_ifs at heq with hk
      · cases heq
        exact ⟨_, hin, (if_pos hk).symm⟩
      · cases heq
        exact ⟨_, hin, (if_neg hk).symm⟩
    · intro h
      obtain ⟨v, hin, hw⟩ := h
      refine ⟨(j, v), hin, ?_⟩
      rw [hw]
      split_ifs <;> rfl
  rw [find?_eq_some, hmem]
  by_cases hj : j = k
  · rw [if_pos hj, ← hj]
    rw [Option.map_eq_some_iff]
    simp only [if_true, find?_eq_some]
    apply Iff.intro
    · intro h
      obtain ⟨v, hin, hw⟩ := h
      exact ⟨v, hin, hw.symm⟩
    · intro h
      obtain ⟨v, hin, hw⟩ := h
      exact ⟨v, hin, hw.symm⟩
  · simp only [if_neg hj, find?_eq_some, exists_eq_right']

end UnorderedMap

end Pimc.Lib
