import Pimc.Config.LoadedConfig
import Pimc.Scheduler.NeighborState

/-!
# From the document to the neighbor

A configuration that is loaded from a document is run. What the neighbor keeps is
what the document asks for, and after the goodbye it keeps no tree of the document.
-/

namespace Pimc

open Lib Exec Yaml

/-! ### What a document asks for -/

theorem exists_mem_iff {α β : Type} {R : α → β → Prop} {P : α → Prop} {Q : β → Prop}
    {as : List α} {bs : List β} (h : List.Forall₂ R as bs) (hPQ : ∀ a b, R a b → (P a ↔ Q b)) :
    (∃ a ∈ as, P a) ↔ ∃ b ∈ bs, Q b := by
  induction h with
  | nil => simp
  | cons hab _ ih =>
    simp only [List.mem_cons, exists_eq_or_imp]
    exact or_congr (hPQ _ _ hab) ih

namespace LoadedAs

variable {d g : GroupConfig IPv4Address}

theorem rp_iff (h : LoadedAs d g) (rp : IPv4Address) :
    (∃ rpt ∈ g.rpt, rpt.rp = rp) ↔ ∃ rpt ∈ d.rpt, rpt.rp = rp := by
  have hrp := h.rp
  cases hg : g.rpt <;> cases hd : d.rpt <;> rw [hg, hd] at hrp <;> simp_all

end LoadedAs

def Settings.Asks (st : Settings) : JPKey IPv4Address → Prop := JPConfig.Asked ⟨st.groups⟩

theorem LoadedFrom.asked_iff {lh : LoaderHost} {st : Settings} {cfg : LoadedConfig}
    (h : LoadedFrom lh st cfg) (k : JPKey IPv4Address) : cfg.jpConfig.Asked k ↔ st.Asks k := by
  have htransfer := fun {P Q : GroupConfig IPv4Address → Prop} =>
    exists_mem_iff (P := P) (Q := Q) h.groups
  cases k with
  | sg group source =>
    exact (htransfer fun d g hdg => by rw [hdg.group, hdg.spt]).symm
  | shared group rp =>
    exact (htransfer fun d g hdg => by rw [hdg.group, hdg.rp_iff]).symm
  | rptPrune group source =>
    exact (htransfer fun d g hdg => by rw [hdg.group, hdg.prunes]).symm

theorem DescribesSettings.builtFrom {lh : LoaderHost} {c : ValueContext} {st : Settings}
    {cfg : LoadedConfig} (h : DescribesSettings lh c.node st) (hfrom : LoadedFrom lh st cfg) :
    BuiltFrom cfg.jpConfig cfg.toPIMCConfig where
  distinct := h.distinct hfrom.groups
  limit := fun g hg => (h.proper hfrom.groups g hg).limit
  updates := hfrom.updates
  inverseUpdates := hfrom.inverseUpdates

theorem LoadedFrom.pimsm {lh : LoaderHost} {st : Settings} {cfg : LoadedConfig}
    (h : LoadedFrom lh st cfg) : cfg.pimsmConfig.neighbor = st.neighbor ∧
      cfg.pimsmConfig.jpPeriod = 60 ∧ cfg.pimsmConfig.jpHoldtime = 210 := by
  rw [h.rest]
  exact ⟨rfl, rfl, rfl⟩

/-! ### The run -/

section Loaded

variable {lh : LoaderHost} {c : ValueContext} {st : Settings} {cfg : LoadedConfig}

/-- Whatever arrives of a run and its shutdown, the neighbor of the document never has a state that
the document does not ask for, and it has all of them from the first rounds on. -/
theorem loaded_keeps_states (hst : DescribesSettings lh c.node st)
    (hload : Returns (fun fuel => loadPIMCConfig lh fuel c) (.ok cfg)) (host : Host) :
    (∀ (fuel : ℕ) (ds : List Datagram),
      (∀ d ∈ ds, ∃ s ∈ (ipv4exec host cfg.toPIMCConfig fuel).2, d.Copies s.pkt) →
      ∀ t k, Alive (statesAfter st.neighbor (fun _ => 0) ds) t k → st.Asks k) ∧
    ∀ n d m delay : ℕ, host.create = none → (∀ k, host.sendto k = none) →
      (∀ k < n, host.stopped k = false) →
      (∀ k < n, Within d (host.gethostnanos k).toNat (host.gethostnanos (k + 1)).toNat) →
      (∀ k ≤ n, (host.gethostnanos k).toNat + nanos 60 < 2 ^ 64) →
      (m + 1) * (nanos 60 + d) + delay ≤ nanos 210 →
      ∀ ds, Delivers (ipv4exec host cfg.toPIMCConfig n).2 ds →
      Reaches m delay (updateTimes (mainIterations host cfg.toPIMCConfig n))
        (updatePackets cfg.toPIMCConfig cfg.updates) ds →
      ∀ t, (∃ r, (updateTimes (mainIterations host cfg.toPIMCConfig n))[m]? = some r ∧
        r + delay ≤ t) → t ≤ (host.gethostnanos n).toNat → ∀ k,
        Alive (statesAfter st.neighbor (fun _ => 0) (ds.filter (·.time ≤ t))) t k ↔
          st.Asks k := by
  obtain ⟨hfrom, _⟩ := loadedFrom_of_returns hst hload
  obtain ⟨hneighbor, hperiod, hholdtime⟩ := hfrom.pimsm
  have hbuilt := hst.builtFrom hfrom
  rw [← hneighbor]
  constructor
  · intro fuel ds hsource t k halive
    rw [← hfrom.asked_iff]
    exact states_only hbuilt (isSent_of_run hsource) halive
  · intro n d m delay hcreate hsend hrun hclock hupdate hroom ds hnet hreach t hstarted hend k
    rw [ipv4exec_trace hcreate hsend hrun] at hnet
    obtain ⟨r, hr, hstart⟩ := hstarted
    rw [← hfrom.asked_iff]
    exact states_exact hbuilt hclock (by rw [hperiod]; exact hupdate) (by rw [hperiod]; decide)
      (by rw [hperiod, hholdtime]; exact hroom) hnet.sorted (isSent_of_delivers hnet) hreach hr
      hstart hend k

/-- The network of `instant` at readings 25 seconds apart, and everything the run hands over up to
its end, the last packet first. -/
theorem loaded_keeps_states_example : ∃ cfg : LoadedConfig,
    Returns (fun fuel => loadPIMCConfig sampleLoaderHost fuel (.root sampleDocument)) (.ok cfg) ∧
    (∀ t k, Alive (statesAfter (.ofOctets 10 0 0 2) (fun _ => 0)
      (instant (ipv4exec slowHost cfg.toPIMCConfig 7).2).reverse) t k → sampleSettings.Asks k) ∧
    ∀ k, Alive (statesAfter (.ofOctets 10 0 0 2) (fun _ => 0)
      ((instant (ipv4exec slowHost cfg.toPIMCConfig 6).2).filter (·.time ≤ nanos 100)))
        (nanos 100) k ↔ sampleSettings.Asks k := by
  obtain ⟨cfg, hload⟩ := sampleDocument_loads
  have hperiod := (loadedFrom_of_returns sampleDocument_describes hload).1.pimsm.2.1
  have hclock : ∀ k < 6, Within (nanos 25) (slowHost.gethostnanos k).toNat
      (slowHost.gethostnanos (k + 1)).toNat := by decide
  have hupdate : ∀ k ≤ 6, (slowHost.gethostnanos k).toNat + nanos 60 < 2 ^ 64 := by decide
  have hround : (updateTimes (mainIterations slowHost cfg.toPIMCConfig 6))[0]? =
      some (nanos 75) := by
    rw [updateTimes_eq (by rw [hperiod]; exact hupdate), hperiod]
    decide
  have htrace : (ipv4exec slowHost cfg.toPIMCConfig 6).2 = mainCalls slowHost cfg.toPIMCConfig 6 :=
    ipv4exec_trace rfl (fun _ => rfl) (by decide)
  obtain ⟨honly, hkeeps⟩ := loaded_keeps_states sampleDocument_describes hload slowHost
  refine ⟨cfg, hload, honly 7 _ fun d hd => instant_source (List.mem_reverse.mp hd), ?_⟩
  exact hkeeps 6 (nanos 25) 0 0 rfl (fun _ => rfl) (by decide) hclock hupdate (by decide)
    (instant (ipv4exec slowHost cfg.toPIMCConfig 6).2)
    (htrace ▸ instant_delivers fun k hk => BitVec.le_def.mpr (hclock k hk).1)
    (htrace ▸ instant_reaches) (nanos 100) ⟨nanos 75, hround, by decide⟩ (by decide)

/-- After the goodbye no tree of the document is left, only prunes that will expire. -/
theorem loaded_leaves_no_tree (hst : DescribesSettings lh c.node st)
    (hload : Returns (fun fuel => loadPIMCConfig lh fuel c) (.ok cfg)) (host : Host)
    (n : ℕ) (hcreate : host.create = none) (hsend : ∀ k, host.sendto k = none)
    (hrun : ∀ k < n, host.stopped k = false) (hstop : host.stopped n = true)
    (before after : List Datagram) (hbefore : Delivers (mainCalls host cfg.toPIMCConfig n) before)
    (hsource : ∀ d ∈ after, ∃ s ∈ shutdownFrom host cfg.toPIMCConfig (n + 1), d.Copies s.pkt)
    (hall : ∀ s ∈ shutdownFrom host cfg.toPIMCConfig (n + 1), ∃ d ∈ after, d.Copies s.pkt) :
    (∀ fuel, n < fuel → ipv4exec host cfg.toPIMCConfig fuel = (some true,
      mainCalls host cfg.toPIMCConfig n ++ shutdownFrom host cfg.toPIMCConfig (n + 1))) ∧
    ∀ t k, Alive (statesAfter st.neighbor (fun _ => 0) (before ++ after)) t k →
      ∃ group source, k = .rptPrune group source ∧ st.Asks k ∧
        ∃ d ∈ before, t < d.time + nanos 210 := by
  obtain ⟨hfrom, hpack⟩ := loadedFrom_of_returns hst hload
  obtain ⟨hneighbor, _, hholdtime⟩ := hfrom.pimsm
  have hbuilt := hst.builtFrom hfrom
  have hno := ((hst.packable_iff hfrom.groups).mpr hpack).2
  obtain ⟨us, hret, hus, hloss⟩ := inversePack_withdraws cfg.jpConfig hbuilt.distinct
  rw [hret.unique hbuilt.inverseUpdates] at hus hloss
  have hsent := isSent_of_delivers hbefore
  refine ⟨fun fuel hfuel => ?_, fun t k halive => ?_⟩
  · have hsucceed := allSucceed_of_none hsend 0 (mainCalls host cfg.toPIMCConfig n ++
      shutdownFrom host cfg.toPIMCConfig (n + 1))
    rw [ipv4exec_stopped hcreate hrun hstop hfuel, hsucceed, attempted_of_allSucceed hsucceed]
  · rw [statesAfter_append, ← hneighbor] at halive
    have hthen := goodbye_shrinks hbuilt hsource _ halive
    have hasked := states_only hbuilt (fun d hd => Or.inl (hsent d hd)) hthen
    have hgone : ∀ k', (∃ u ∈ cfg.inverseUpdates, jpEffect u k' = .remove) → k ≠ k' := by
      intro k' hremoved heq
      rw [heq] at halive
      exact goodbye_removes hbuilt hsource hall _ t hremoved halive
    cases k with
    | sg a s => exact absurd rfl (hgone _ (hus.source_trees a s hasked))
    | shared a rp => exact absurd rfl (hgone _ (hloss.mp hno a rp hasked))
    | rptPrune group source =>
      refine ⟨group, source, rfl, (hfrom.asked_iff _).mp hasked, ?_⟩
      rcases Arrival.alive_cases _ hthen with hzero | ⟨a, ha, hrefresh, hlt⟩
      · exact absurd hzero (Nat.not_lt_zero t)
      · obtain ⟨d, hd, rfl⟩ := List.mem_map.mp ha
        rcases isSent_cases (fun _ => hbuilt.size_le) (hsent d hd) with ⟨u, _, heq⟩ | hkeep
        · rw [heq, hholdtime] at hlt
          exact ⟨d, hd, hlt⟩
        · rw [hkeep] at hrefresh
          cases hrefresh

/-- Nothing of the example is lost on the way. -/
theorem loaded_leaves_no_tree_example : ∃ cfg : LoadedConfig,
    Returns (fun fuel => loadPIMCConfig sampleLoaderHost fuel (.root sampleDocument)) (.ok cfg) ∧
    ∀ t a s, ¬Alive (statesAfter (.ofOctets 10 0 0 2) (fun _ => 0)
      (instant (mainCalls sampleHost cfg.toPIMCConfig 2) ++
        instant (shutdownFrom sampleHost cfg.toPIMCConfig 3))) t (.shared a s) := by
  obtain ⟨cfg, hload⟩ := sampleDocument_loads
  obtain ⟨after, hafter⟩ : ∃ after, after = shutdownFrom sampleHost cfg.toPIMCConfig 3 := ⟨_, rfl⟩
  have hbefore : Delivers (mainCalls sampleHost cfg.toPIMCConfig 2)
      (instant (mainCalls sampleHost cfg.toPIMCConfig 2)) := instant_delivers (by decide)
  have hsource : ∀ d ∈ instant after, ∃ s ∈ after, d.Copies s.pkt := fun _ => instant_source
  have hall : ∀ s ∈ after, ∃ d ∈ instant after, d.Copies s.pkt := fun _ => instant_arrives
  rw [hafter] at hsource hall
  have hleft := (loaded_leaves_no_tree sampleDocument_describes hload sampleHost 2 rfl
    (fun _ => rfl) (by decide) rfl _ _ hbefore hsource hall).2
  refine ⟨cfg, hload, fun t a s halive => ?_⟩
  obtain ⟨_, _, hprune, _⟩ := hleft t _ halive
  cases hprune

end Loaded

end Pimc
