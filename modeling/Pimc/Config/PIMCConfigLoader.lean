import Pimc.Config.LoaderExact
import Pimc.Pimsm.Capacity
import Pimc.Pimsm.PackVerified

/-!
# Packing a loaded configuration (config/PIMCConfigLoader.hpp)

`build` packs the configuration that `loadJPConfig` returned and throws when the
sanity check rejects the updates. All that the packer and the check ask of a
configuration is established by the loader, except that each group asks for
some state: a group with an empty `Join` list and no `Join*` is accepted.
-/

namespace Pimc

open Lib Yaml

namespace PIMCConfigLoader

/-- The part of `build` before the inverse updates. -/
def buildUpdates {A : Type} [LinearOrder A] [ToString A] [Inhabited A] (fuel : ℕ)
    (jpConfig : JPConfig A) : Outcome String (List (Update A)) := do
  let updates ← pack fuel jpConfig
  match verifyUpdates jpConfig updates with
  | .ok _ => return updates
  | .error e => Outcome.throws e

section Build

variable {A : Type} [LinearOrder A] [ToString A] [Inhabited A]

theorem steady_buildUpdates (cfg : JPConfig A) : Steady fun fuel => buildUpdates fuel cfg := by
  unfold buildUpdates
  exact (steady_pack cfg).bind fun us => Steady.const _

/-- `build` throws if and only if the check rejects the updates. -/
theorem buildUpdates_never_throws {cfg : JPConfig A} {us : List (Update A)}
    (hpack : Returns (fun fuel => pack fuel cfg) us) :
    (∀ fuel e, buildUpdates fuel cfg ≠ .throws e) ↔ verifyUpdates cfg us = .ok () := by
  constructor
  · intro hnever
    obtain ⟨fuel, hfuel⟩ := hpack
    have hret : pack fuel cfg = .ret us := hfuel fuel le_rfl
    cases hverify : verifyUpdates cfg us with
    | ok u => rfl
    | error e =>
      have hthrows : buildUpdates fuel cfg = .throws e := by
        unfold buildUpdates
        rw [hret, Outcome.ret_bind, hverify]
      exact absurd hthrows (hnever fuel e)
  · intro hverify
    have hret : Returns (fun fuel => buildUpdates fuel cfg) us := by
      unfold buildUpdates
      apply hpack.bind
      apply Returns.of_eq
      intro fuel
      rw [hverify]
      rfl
    exact hret.never_throws (steady_buildUpdates cfg)

end Build

end PIMCConfigLoader

/-! ### Loaded groups -/

namespace LoadedAs

variable {d g : GroupConfig IPv4Address}

theorem degenerate_iff (h : LoadedAs d g) : g.Degenerate ↔ d.Degenerate := by
  have hrpt : g.rpt = none ↔ d.rpt = none := by
    have hrp := h.rp
    cases hg : g.rpt <;> cases hd : d.rpt <;> simp [hg, hd] at hrp ⊢
  have hspt : g.spt = [] ↔ d.spt = [] := by
    simp only [List.eq_nil_iff_forall_not_mem, h.spt]
  exact and_congr hrpt hspt

theorem mem_addresses {A : Type} {d : GroupConfig A} {a : A} (ha : a ∈ d.prunes) :
    a ∈ (match d.rpt with
      | none => []
      | some rpt => rpt.rp :: rpt.prunes) := by
  unfold GroupConfig.prunes at ha
  cases hrpt : d.rpt with
  | none =>
    rw [hrpt] at ha
    cases ha
  | some rpt =>
    rw [hrpt] at ha
    exact List.mem_cons_of_mem rpt.rp ha

theorem proper (h : LoadedAs d g) {e : Node × Node} (hd : Describes e d) : g.Proper where
  spt_nodup := h.spt_sorted.nodup
  prunes_nodup := h.prunes_sorted.nodup
  disjoint := by
    intro a hspt hprune
    have hdistinct := (List.nodup_append.mp hd.distinct).2.2
    exact hdistinct a (mem_addresses ((h.prunes a).mp hprune)) a ((h.spt a).mp hspt) rfl
  limit := by
    have hsub : g.prunes ⊆ d.prunes := fun a ha => (h.prunes a).mp ha
    exact (h.prunes_sorted.nodup.subperm hsub).length_le.trans hd.limit

end LoadedAs

/-! ### Groups that ask for state -/

/-- The value of a group has a `Join*` key or an address in its `Join` list. -/
def AsksForState (n : Node) : Prop :=
  ∃ line entries, n = .map line entries ∧ ((∃ m, Entry entries "Join*" m) ∨
    ∃ line' elems, Entry entries "Join" (.sequence line' elems) ∧ elems ≠ [])

/-- Each group of the multicast section `v` asks for some state. -/
def EveryGroupAsks (v : Node) : Prop :=
  ∀ line entries, v = .map line entries → ∀ e ∈ entries, AsksForState e.2

theorem entry_unique {entries : List (Node × Node)} {allowed : List String}
    (hfields : Fields entries allowed) {field : String} {m n : Node}
    (hm : Entry entries field m) (hn : Entry entries field n) : m = n :=
  Option.some.inj ((entry_lookup hfields hm).symm.trans (entry_lookup hfields hn))

theorem asksForState_iff {n : Node} {d : GroupConfig IPv4Address}
    (h : DescribesGroup n d.rpt d.spt) : AsksForState n ↔ ¬ d.Degenerate := by
  obtain ⟨line, entries, rfl, hfields, _, hrpt, hspt⟩ := h
  constructor
  · intro h' hcase
    obtain ⟨line', entries', heq, hasks⟩ := h'
    obtain ⟨hnone, hnil⟩ := hcase
    injection heq with _ heq
    subst heq
    rcases hasks with ⟨m, hm⟩ | ⟨line'', elems, helems, hne⟩
    · rcases hrpt with ⟨_, hno⟩ | ⟨rpt, _, hsome, _⟩
      · exact hno m hm
      · rw [hnone] at hsome
        cases hsome
    · rcases hspt with ⟨hno, _⟩ | ⟨_, elems', hentry, hnodes⟩
      · exact hno _ helems
      · have hsame := entry_unique hfields helems hentry
        injection hsame with _ hsame
        rw [hnil, ← hsame] at hnodes
        cases hnodes
        exact hne rfl
  · intro hasks
    refine ⟨line, entries, rfl, ?_⟩
    rcases hrpt with ⟨hnone, _⟩ | ⟨_, m, _, hm, _⟩
    · right
      rcases hspt with ⟨_, hnil⟩ | ⟨line', elems, hentry, hnodes⟩
      · exact absurd ⟨hnone, hnil⟩ hasks
      · refine ⟨line', elems, hentry, ?_⟩
        intro h'
        subst h'
        cases hspt : d.spt with
        | nil => exact hasks ⟨hnone, hspt⟩
        | cons a as =>
          rw [hspt] at hnodes
          cases hnodes
    · exact Or.inl ⟨m, hm⟩

theorem forall_mem_iff {α β : Type} {R : α → β → Prop} {P : α → Prop} {Q : β → Prop}
    {as : List α} {bs : List β} (h : List.Forall₂ R as bs) (hPQ : ∀ a b, R a b → (P a ↔ Q b)) :
    (∀ a ∈ as, P a) ↔ ∀ b ∈ bs, Q b := by
  induction h with
  | nil => simp
  | cons hab _ ih => rw [List.forall_mem_cons, List.forall_mem_cons, hPQ _ _ hab, ih]

theorem everyGroupAsks_iff {v : Node} {ds : List (GroupConfig IPv4Address)}
    (h : Documented v ds) : EveryGroupAsks v ↔ ∀ d ∈ ds, ¬ d.Degenerate := by
  obtain ⟨line, entries, rfl, _, hds, _⟩ := h
  have hentries : EveryGroupAsks (.map line entries) ↔ ∀ e ∈ entries, AsksForState e.2 := by
    constructor
    · intro hall
      exact hall line entries rfl
    · intro hall line' entries' heq
      injection heq with _ heq
      rwa [← heq]
  rw [hentries]
  exact forall_mem_iff hds fun e d hed => asksForState_iff hed.value

theorem proper_of_forall₂ {es : List (Node × Node)} {ds gs : List (GroupConfig IPv4Address)}
    (hds : List.Forall₂ Describes es ds) (hgs : List.Forall₂ LoadedAs ds gs) :
    ∀ g ∈ gs, g.Proper := by
  induction hds generalizing gs with
  | nil =>
    cases hgs
    simp
  | cons hd _ ih =>
    cases hgs with
    | cons hg hgs => exact List.forall_mem_cons.mpr ⟨hg.proper hd, ih hgs⟩

/-- An accepted configuration is packed and verified if and only if each of its groups asks for
some state. -/
theorem build_accepted_iff (c : ValueContext) (cfg : JPConfig IPv4Address)
    (h : loadJPConfig c = .ok (.ok cfg)) :
    ∃ us, Returns (fun fuel => pack fuel cfg) us ∧
      (verifyUpdates cfg us = .ok () ↔ EveryGroupAsks c.node) ∧
      ((∀ fuel e, PIMCConfigLoader.buildUpdates fuel cfg ≠ .throws e) ↔
        EveryGroupAsks c.node) := by
  obtain ⟨ds, hdoc, hloaded⟩ := (loadJPConfig_eq_iff c cfg).mp h
  have hasks : EveryGroupAsks c.node ↔ ∀ g ∈ cfg.groups, ¬ g.Degenerate := by
    rw [everyGroupAsks_iff hdoc]
    exact forall_mem_iff hloaded fun d g hdg => not_congr hdg.degenerate_iff.symm
  obtain ⟨line, entries, _, _, hds, hnodup⟩ := hdoc
  have hdist : cfg.DistinctGroups := by
    unfold JPConfig.DistinctGroups
    rw [groups_of_loadedAs hloaded]
    exact hnodup
  obtain ⟨us, hpack, hverify⟩ := pack_verified_iff cfg hdist (proper_of_forall₂ hds hloaded)
  rw [← hasks] at hverify
  exact ⟨us, hpack, hverify, (PIMCConfigLoader.buildUpdates_never_throws hpack).trans hverify⟩

theorem build_accepted_iff_example : ∃ us, Returns (fun fuel => pack fuel sampleConfig) us ∧
    (verifyUpdates sampleConfig us = .ok () ↔ EveryGroupAsks sampleSection) ∧
    ((∀ fuel e, PIMCConfigLoader.buildUpdates fuel sampleConfig ≠ .throws e) ↔
      EveryGroupAsks sampleSection) :=
  build_accepted_iff (.root sampleSection) sampleConfig
    ((loadJPConfig_eq_iff _ _).mpr ⟨_, sampleSection_documented, sampleSection_loadedAs⟩)

def emptyJoinSection : Node :=
  .map 0 [(.scalar 0 "239.1.1.1", .map 1 [(.scalar 1 "Join", .sequence 1 [])])]

def emptyJoinConfig : JPConfig IPv4Address := ⟨[⟨.ofOctets 239 1 1 1, none, []⟩]⟩

theorem emptyJoinSection_loads :
    loadJPConfig (.root emptyJoinSection) = .ok (.ok emptyJoinConfig) := by
  apply (loadJPConfig_eq_iff _ _).mpr
  refine ⟨[⟨.ofOctets 239 1 1 1, none, []⟩], ⟨0, _, rfl, List.cons_ne_nil _ _,
    List.Forall₂.cons ?_ List.Forall₂.nil, List.nodup_singleton _⟩, List.Forall₂.cons
    ⟨rfl, rfl, by decide, fun _ => Iff.rfl, by decide, fun _ => Iff.rfl⟩ List.Forall₂.nil⟩
  have hjoin : Entry [(.scalar 1 "Join", .sequence 1 [])] "Join" (.sequence 1 []) :=
    ⟨_, rfl, List.Mem.head _⟩
  refine ⟨⟨_, rfl, grpAddr_ok.mp rfl⟩, ⟨1, _, rfl, ⟨["Join"], rfl, by decide, ?_⟩,
    ⟨_, Or.inr hjoin⟩, Or.inl ⟨rfl, ?_⟩, Or.inr ⟨1, [], hjoin, List.Forall₂.nil⟩⟩,
    by decide, by decide⟩
  · intro f hf
    rw [List.mem_singleton.mp hf]
    simp
  · intro n h
    obtain ⟨key, hkey, hin⟩ := h
    rw [List.mem_singleton] at hin
    cases hin
    exact absurd hkey (by decide)

/-- The group with the empty `Join` list is accepted, but its configuration is not verified. -/
theorem build_rejects_accepted :
    loadJPConfig (.root emptyJoinSection) = .ok (.ok emptyJoinConfig) ∧
      Returns (fun fuel => pack fuel emptyJoinConfig) [] ∧
      verifyUpdates emptyJoinConfig [] ≠ .ok () ∧
      PIMCConfigLoader.buildUpdates 1 emptyJoinConfig =
        .throws "missing groups:\n  239.1.1.1\n\n" :=
  ⟨emptyJoinSection_loads, ⟨1, fun fuel hf => by
    obtain ⟨n, rfl⟩ := Nat.exists_eq_add_of_le' hf
    rfl⟩, by decide, by decide⟩

end Pimc
