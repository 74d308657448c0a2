import Mathlib.Data.List.Perm.Basic
import Pimc.Config.LoaderExact
import Pimc.Pimsm.Pack

/-!
# Sections that list the same things in another order

The sources of a group go through ordered sets, so their order in the document
is forgotten. The groups stay in document order.
-/

namespace Pimc

open Lib Logged Yaml

/-! ### Lists in another order -/

section Lists

variable {α β γ : Type}

theorem exists_right {R : α → β → Prop} {as : List α} {bs : List β} (h : List.Forall₂ R as bs)
    {a : α} (ha : a ∈ as) : ∃ b ∈ bs, R a b := by
  induction h with
  | nil => cases ha
  | cons hab _ ih =>
    rcases List.mem_cons.mp ha with rfl | htail
    · exact ⟨_, List.mem_cons_self, hab⟩
    · obtain ⟨b, hb, hR⟩ := ih htail
      exact ⟨b, List.mem_cons_of_mem _ hb, hR⟩

theorem exists_left {R : α → β → Prop} {as : List α} {bs : List β} (h : List.Forall₂ R as bs)
    {b : β} (hb : b ∈ bs) : ∃ a ∈ as, R a b := exists_right h.flip hb

/-- `as` and `bs` agree up to `R` and up to their order. -/
def Rearranged (R : α → β → Prop) (as : List α) (bs : List β) : Prop :=
  ∃ cs, as.Perm cs ∧ List.Forall₂ R cs bs

namespace Rearranged

variable {R : α → β → Prop} {as : List α} {bs : List β}

theorem exists_right (h : Rearranged R as bs) {a : α} (ha : a ∈ as) : ∃ b ∈ bs, R a b := by
  obtain ⟨cs, hperm, hR⟩ := h
  exact Pimc.exists_right hR (hperm.mem_iff.mp ha)

theorem exists_left (h : Rearranged R as bs) {b : β} (hb : b ∈ bs) : ∃ a ∈ as, R a b := by
  obtain ⟨cs, hperm, hR⟩ := h
  obtain ⟨a, ha, hab⟩ := Pimc.exists_left hR hb
  exact ⟨a, hperm.mem_iff.mpr ha, hab⟩

end Rearranged

end Lists

mutual

/-- The same document up to the order of entries and elements, and the lines they are on. -/
inductive Reordered : Node → Node → Prop where
  | null (line line' : ℤ) : Reordered (.null line) (.null line')
  | scalar (line line' : ℤ) (value : String) :
      Reordered (.scalar line value) (.scalar line' value)
  | sequence (line line' : ℤ) {elems mid elems' : List Node} (hperm : elems.Perm mid)
      (h : List.Forall₂ Reordered mid elems') :
      Reordered (.sequence line elems) (.sequence line' elems')
  | map (line line' : ℤ) {entries mid entries' : List (Node × Node)} (hperm : entries.Perm mid)
      (h : List.Forall₂ ReorderedEntry mid entries') :
      Reordered (.map line entries) (.map line' entries')

inductive ReorderedEntry : Node × Node → Node × Node → Prop where
  | mk {key key' value value' : Node} (hkey : Reordered key key') (hvalue : Reordered value value') :
      ReorderedEntry (key, value) (key', value')

end

namespace Reordered

theorem elems {line line' : ℤ} {as bs : List Node}
    (h : Reordered (.sequence line as) (.sequence line' bs)) : Rearranged Reordered as bs := by
  cases h with
  | sequence _ _ hperm h => exact ⟨_, hperm, h⟩

theorem entries {line line' : ℤ} {as bs : List (Node × Node)}
    (h : Reordered (.map line as) (.map line' bs)) : Rearranged ReorderedEntry as bs := by
  cases h with
  | map _ _ hperm h => exact ⟨_, hperm, h⟩

end Reordered

/-! ### What a section says, in another order -/

section Entries

variable {es es' : List (Node × Node)}

end Entries

/-- What is promised of an accepted section: the lists of its configuration are ascending. -/
structure Ascending (cfg : JPConfig IPv4Address) : Prop where
  groups : (cfg.groups.map (·.group)).Pairwise (· < ·)
  spt : ∀ g ∈ cfg.groups, g.spt.Pairwise (· < ·)
  prunes : ∀ g ∈ cfg.groups, g.prunes.Pairwise (· < ·)

end Pimc
