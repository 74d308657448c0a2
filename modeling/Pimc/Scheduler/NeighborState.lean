import Pimc.Packets.PacketChecksum
import Pimc.Packets.UpdateEncoding
import Pimc.Pimsm.Capacity
import Pimc.Pimsm.Neighbor
import Pimc.Scheduler.HoldTimes

/-!
# What a run does to the neighbor

The neighbor reads the datagrams that reach it and keeps the states of the
Join/Prune messages that are for it. The network may lose, repeat and reorder
what is sent.
-/

namespace Pimc

open Lib Exec Pimsmv2

/-! ### Reading a datagram -/

/-- The update and the hold time of a Join/Prune message for `me`. -/
def readUpdate (me : IPv4Address) (data : List Byte) :
    Option (Update IPv4Address × BitVec 16) :=
  match readJoinPrune.run (data.drop 20) with
  | some (msg, []) =>
    if onesSum (data.drop 20) = 0xFFFF ∧ msg.version = 2 ∧ msg.type = PIMSMv2_JOIN_PRUNE ∧
        msg.neighbor = me then
      some (⟨msg.groups.map (·.entry)⟩, msg.holdtime)
    else none
  | _ => none

structure Datagram where
  time : ℕ
  data : List Byte

namespace Datagram

/-- A datagram that is no update for `me` changes nothing. -/
def arrival (me : IPv4Address) (d : Datagram) : Arrival (JPKey IPv4Address) :=
  match readUpdate me d.data with
  | some (u, holdtime) => ⟨d.time, nanos holdtime.toNat, jpEffect u⟩
  | none => ⟨d.time, 0, fun _ => .keep⟩

/-- The buffer of the packet may be anywhere. -/
def Copies (d : Datagram) (pkt : PIMPacket) : Prop := ∃ base, pkt.data base = .ok d.data

theorem arrival_time (me : IPv4Address) (d : Datagram) : (d.arrival me).time = d.time := by
  unfold arrival
  split <;> rfl

end Datagram

/-- The states of `me` after the datagrams. -/
def statesAfter (me : IPv4Address) (expiry : JPKey IPv4Address → ℕ) (ds : List Datagram) :
    JPKey IPv4Address → ℕ :=
  Arrival.applyAll expiry (ds.map (Datagram.arrival me))

theorem statesAfter_append (me : IPv4Address) (expiry : JPKey IPv4Address → ℕ)
    (ds ds' : List Datagram) :
    statesAfter me expiry (ds ++ ds') = statesAfter me (statesAfter me expiry ds) ds' := by
  simp [statesAfter, Arrival.applyAll]

theorem readUpdate_update {base : ℕ} {update : Update IPv4Address} (hsize : update.size ≤ 1466)
    {source neighbor : IPv4Address} {holdtime : BitVec 16} {data : List Byte}
    (hdata : IPv4PIMUpdatePacket.build base update source neighbor holdtime = .ok data) :
    readUpdate neighbor data = some (update, holdtime) := by
  obtain ⟨checksum, hread⟩ := readJoinPrune_build hsize hdata
  have hgroups := ofUpdate_entries update neighbor holdtime checksum
  have hsum : onesSum (data.drop 20) = 0xFFFF := by
    rw [IPv4PIMUpdatePacket.build_eq] at hdata
    injection hdata with hdata
    rw [← hdata]
    refine (checksummed_accepted base _ source (by decide) ?_).1
    rw [IPv4PIMUpdatePacket.bodyBytes_length]
    omega
  unfold readUpdate
  rw [hread]
  simp only
  rw [if_pos ⟨hsum, rfl, rfl, rfl⟩, hgroups]
  rfl

theorem readHdr_type {first : Byte} {bytes rest : List Byte} {hdr : Byte × Byte × BitVec 16}
    (h : readHdr.run (first :: bytes) = some (hdr, rest)) : hdr.2.1 = first &&& 0xf := by
  unfold readHdr at h
  simp only [StateT.run_bind, Option.bind_eq_bind, Option.bind_eq_some_iff] at h
  obtain ⟨⟨b, bytes1⟩, h1, ⟨c, bytes2⟩, _, ⟨_, bytes3⟩, _, ⟨sum, bytes4⟩, _, h5⟩ := h
  cases h1
  cases h5
  rfl

/-- The type of a message that begins with `first`. -/
theorem readJoinPrune_type {first : Byte} {bytes : List Byte} {msg : JPMessage} {rest : List Byte}
    (h : readJoinPrune.run (first :: bytes) = some (msg, rest)) : msg.type = first &&& 0xf := by
  unfold readJoinPrune at h
  rw [StateT.run_bind] at h
  obtain ⟨⟨hdr, bytes1⟩, hhdr, h⟩ := Option.bind_eq_some_iff.mp h
  rw [← readHdr_type hhdr]
  simp only [StateT.run_bind, Option.bind_eq_bind, Option.bind_eq_some_iff] at h
  obtain ⟨_, _, _, _, _, _, _, _, _, _, _, _, h6⟩ := h
  cases h6
  rfl

theorem readUpdate_hello {base : ℕ} {source : IPv4Address} {helloHoldtime : BitVec 16}
    {drPriority generationId : BitVec 32} {data : List Byte}
    (hdata : IPv4PIMHelloPacket.build base source helloHoldtime drPriority generationId = .ok data)
    (me : IPv4Address) : readUpdate me data = none := by
  rw [IPv4PIMHelloPacket.build_eq] at hdata
  injection hdata with hdata
  obtain ⟨checksum, hbytes⟩ := checksummed_eq base 0x20 0
    (IPv4PIMHelloPacket.bodyBytes helloHoldtime drPriority generationId)
  have hdrop : data.drop 20 = 0x20 :: ([0] ++ be16 checksum ++
      IPv4PIMHelloPacket.bodyBytes helloHoldtime drPriority generationId) := by
    rw [← hdata, hbytes]
    exact List.drop_left' (IPv4HdrWriter.bytes_length _ source)
  unfold readUpdate
  split
  · rename_i msg hread
    rw [hdrop] at hread
    have htype := readJoinPrune_type hread
    rw [if_neg]
    intro hfields
    rw [hfields.2.2.1] at htype
    revert htype
    decide
  · rfl

/-! ### Copies of what was sent -/

section Copies

variable {me : IPv4Address} {d : Datagram}

theorem arrival_update {n : ℕ} {update : Update IPv4Address} (hsize : update.size ≤ 1466)
    {source : IPv4Address} {holdtime : BitVec 16}
    (h : d.Copies (.update ⟨n, update, source, me, holdtime⟩)) :
    d.arrival me = ⟨d.time, nanos holdtime.toNat, jpEffect update⟩ := by
  obtain ⟨base, hdata⟩ := h
  unfold Datagram.arrival
  rw [readUpdate_update hsize hdata]

theorem arrival_hello {pkt : IPv4PIMHelloPacket} (h : d.Copies (.hello pkt)) (k : JPKey IPv4Address) :
    (d.arrival me).effect k = .keep := by
  obtain ⟨base, hdata⟩ := h
  unfold Datagram.arrival
  rw [readUpdate_hello hdata me]

end Copies

theorem mem_updatePackets {cfg : PIMCConfig IPv4Address} {us : List (Update IPv4Address)}
    {pkt : PIMPacket} (h : pkt ∈ updatePackets cfg us) : ∃ n, ∃ u ∈ us, pkt =
      .update ⟨n, u, cfg.pimsmConfig.intfAddr, cfg.pimsmConfig.neighbor,
        cfg.pimsmConfig.jpHoldtime⟩ := by
  obtain ⟨⟨u, i⟩, hin, rfl⟩ := List.mem_map.mp h
  exact ⟨i + 1, u, List.fst_mem_of_mem_zipIdx hin, rfl⟩

theorem exists_updatePacket (cfg : PIMCConfig IPv4Address) {us : List (Update IPv4Address)}
    {u : Update IPv4Address} (h : u ∈ us) : ∃ n, PIMPacket.update
      ⟨n, u, cfg.pimsmConfig.intfAddr, cfg.pimsmConfig.neighbor, cfg.pimsmConfig.jpHoldtime⟩ ∈
        updatePackets cfg us := by
  obtain ⟨i, hi, rfl⟩ := List.mem_iff_getElem.mp h
  refine ⟨i + 1, List.mem_map.mpr ⟨(us[i], i), ?_, rfl⟩⟩
  rw [List.mem_zipIdx_iff_getElem?]
  exact List.getElem?_eq_getElem hi

/-- The updates and the inverse updates of `cfg` are those of `jp`. -/
structure BuiltFrom (jp : JPConfig IPv4Address) (cfg : PIMCConfig IPv4Address) : Prop where
  distinct : jp.DistinctGroups
  limit : ∀ g ∈ jp.groups, UpdatePacker.PruneLimit g
  updates : Returns (fun fuel => pack fuel jp) cfg.updates
  inverseUpdates : Returns (fun fuel => inversePack fuel jp) cfg.inverseUpdates

namespace BuiltFrom

variable {jp : JPConfig IPv4Address} {cfg : PIMCConfig IPv4Address} (h : BuiltFrom jp cfg)

include h

theorem conveys : Conveys jp cfg.updates := by
  obtain ⟨us, hpack, hus⟩ := pack_conveys jp h.distinct h.limit
  rw [h.updates.unique hpack]
  exact hus

theorem size_le {u : Update IPv4Address} (hu : u ∈ cfg.updates) : u.size ≤ 1466 := by
  obtain ⟨p, hpack, hinv⟩ := pack_placed jp h.distinct h.limit
  rw [h.updates.unique hpack] at hu
  exact (hinv.wellShaped u hu).size_le

theorem inverse_size_le {u : Update IPv4Address} (hu : u ∈ cfg.inverseUpdates) :
    u.size ≤ 1466 := by
  obtain ⟨p, hpack, hinv⟩ := inversePack_placed jp h.distinct
  rw [h.inverseUpdates.unique hpack] at hu
  exact (hinv.run.wellShaped u hu).size_le

end BuiltFrom

theorem exists_builtFrom {jp : JPConfig IPv4Address} (hdistinct : jp.DistinctGroups)
    (hlimit : ∀ g ∈ jp.groups, UpdatePacker.PruneLimit g) (pimsmConfig : PIMSMConfig IPv4Address) :
    ∃ cfg : PIMCConfig IPv4Address, BuiltFrom jp cfg ∧ cfg.pimsmConfig = pimsmConfig := by
  obtain ⟨p, hpack, _⟩ := pack_placed jp hdistinct hlimit
  obtain ⟨q, hinverse, _⟩ := inversePack_placed jp hdistinct
  exact ⟨⟨pimsmConfig, p.build, q.build⟩, ⟨hdistinct, hlimit, hpack, hinverse⟩, rfl⟩

/-! ### A network without delay -/

/-- One copy of every packet that is sent, as it is sent. -/
def instant (sent : List Sent) : List Datagram :=
  sent.map fun s => ⟨s.cts.toNat, (s.pkt.data 0).toOption.getD []⟩

theorem instant_copies (s : Sent) :
    Datagram.Copies ⟨s.cts.toNat, (s.pkt.data 0).toOption.getD []⟩ s.pkt := by
  obtain ⟨bytes, hbytes⟩ := s.pkt.data_ok 0
  refine ⟨0, ?_⟩
  rw [hbytes]
  rfl

theorem instant_source {sent : List Sent} {d : Datagram} (hd : d ∈ instant sent) :
    ∃ s ∈ sent, d.Copies s.pkt := by
  obtain ⟨s, hs, rfl⟩ := List.mem_map.mp hd
  exact ⟨s, hs, instant_copies s⟩

theorem instant_arrives {sent : List Sent} {s : Sent} (hs : s ∈ sent) :
    ∃ d ∈ instant sent, d.Copies s.pkt :=
  ⟨_, List.mem_map_of_mem hs, instant_copies s⟩

/-! ### Updates in any order -/

/-- A copy of a Hello or of an update of `cfg`. -/
def Datagram.IsSent (cfg : PIMCConfig IPv4Address) (us : List (Update IPv4Address))
    (d : Datagram) : Prop :=
  ∃ pkt, d.Copies pkt ∧ (pkt ∈ updatePackets cfg us ∨ ∃ hello, pkt = .hello hello)

section AnyOrder

variable {jp : JPConfig IPv4Address} {cfg : PIMCConfig IPv4Address}
  {us : List (Update IPv4Address)} {d : Datagram}

theorem isSent_cases (hsize : ∀ u ∈ us, u.size ≤ 1466) (h : d.IsSent cfg us) :
    (∃ u ∈ us, d.arrival cfg.pimsmConfig.neighbor =
      ⟨d.time, nanos cfg.pimsmConfig.jpHoldtime.toNat, jpEffect u⟩) ∨
    ∀ k, (d.arrival cfg.pimsmConfig.neighbor).effect k = .keep := by
  obtain ⟨pkt, hcopies, hupdate | ⟨hello, rfl⟩⟩ := h
  · obtain ⟨n, u, hu, rfl⟩ := mem_updatePackets hupdate
    exact Or.inl ⟨u, hu, arrival_update (hsize u hu) hcopies⟩
  · exact Or.inr (arrival_hello hcopies)

theorem statesAfter_iff (h : BuiltFrom jp cfg) {ds : List Datagram}
    (hsorted : ds.Pairwise fun a b => a.time ≤ b.time)
    (hsent : ∀ d ∈ ds, d.IsSent cfg cfg.updates) {expiry : JPKey IPv4Address → ℕ} {t : ℕ}
    (hfresh : ∀ pkt ∈ updatePackets cfg cfg.updates, ∃ d ∈ ds, d.Copies pkt ∧
      t < d.time + nanos cfg.pimsmConfig.jpHoldtime.toNat)
    {k : JPKey IPv4Address} (hstale : ¬jp.Asked k → expiry k ≤ t ∨
      ∃ u ∈ cfg.updates, jpEffect u k = .remove) :
    Alive (statesAfter cfg.pimsmConfig.neighbor expiry ds) t k ↔ jp.Asked k := by
  have hus := h.conveys
  have hcases := fun d hd => isSent_cases (fun _ => h.size_le) (hsent d hd)
  have harrived : ∀ u ∈ cfg.updates, ∃ d ∈ ds, d.arrival cfg.pimsmConfig.neighbor =
      ⟨d.time, nanos cfg.pimsmConfig.jpHoldtime.toNat, jpEffect u⟩ ∧
      t < d.time + nanos cfg.pimsmConfig.jpHoldtime.toNat := by
    intro u hu
    obtain ⟨n, hpkt⟩ := exists_updatePacket cfg hu
    obtain ⟨d, hd, hcopies, ht⟩ := hfresh _ hpkt
    exact ⟨d, hd, arrival_update (h.size_le hu) hcopies, ht⟩
  unfold statesAfter
  apply Arrival.alive_iff expiry (nanos cfg.pimsmConfig.jpHoldtime.toNat)
  · rw [List.pairwise_map]
    simpa only [Datagram.arrival_time] using hsorted
  · intro a ha heff
    obtain ⟨d, hd, rfl⟩ := List.mem_map.mp ha
    rcases hcases d hd with ⟨u, _, heq⟩ | hkeep
    · rw [heq]
    · rw [hkeep] at heff
      cases heff
  · intro hasked a ha
    obtain ⟨d, hd, rfl⟩ := List.mem_map.mp ha
    rcases hcases d hd with ⟨u, hu, heq⟩ | hkeep
    · rw [heq]
      exact hus.kept k hasked u hu
    · rw [hkeep]
      simp
  · intro hno a ha
    obtain ⟨d, hd, rfl⟩ := List.mem_map.mp ha
    rcases hcases d hd with ⟨u, hu, heq⟩ | hkeep
    · rw [heq]
      exact hus.only k hno u hu
    · rw [hkeep]
      simp
  · intro hasked
    obtain ⟨u, hu, heff⟩ := hus.refreshed k hasked
    obtain ⟨d, hd, heq, ht⟩ := harrived u hu
    refine ⟨_, List.mem_map_of_mem hd, ?_, ?_⟩
    · rw [heq]
      exact heff
    · rw [Datagram.arrival_time]
      exact ht
  · intro hno
    rcases hstale hno with hle | ⟨u, hu, heff⟩
    · exact Or.inl hle
    · obtain ⟨d, hd, heq, _⟩ := harrived u hu
      refine Or.inr ⟨_, List.mem_map_of_mem hd, ?_⟩
      rw [heq]
      exact heff

theorem updates_arrival_ne_refresh (h : BuiltFrom jp cfg) (hd : d.IsSent cfg cfg.updates)
    {k : JPKey IPv4Address} (hno : ¬jp.Asked k) :
    (d.arrival cfg.pimsmConfig.neighbor).effect k ≠ .refresh := by
  rcases isSent_cases (fun _ => h.size_le) hd with ⟨u, hu, heq⟩ | hkeep
  · rw [heq]
    exact h.conveys.only k hno u hu
  · rw [hkeep]
    simp

theorem inverse_arrival_ne_refresh (h : BuiltFrom jp cfg) (hd : d.IsSent cfg cfg.inverseUpdates)
    (k : JPKey IPv4Address) : (d.arrival cfg.pimsmConfig.neighbor).effect k ≠ .refresh := by
  obtain ⟨us, hpack, hus, _⟩ := inversePack_withdraws jp h.distinct
  rw [hpack.unique h.inverseUpdates] at hus
  rcases isSent_cases (fun _ => h.inverse_size_le) hd with ⟨u, hu, heq⟩ | hkeep
  · rw [heq]
    exact hus.no_refresh k u hu
  · rw [hkeep]
    simp

/-- Nothing that is not asked for comes to life. -/
theorem statesAfter_only (h : BuiltFrom jp cfg) {ds : List Datagram}
    (hsent : ∀ d ∈ ds, d.IsSent cfg cfg.updates ∨ d.IsSent cfg cfg.inverseUpdates)
    (expiry : JPKey IPv4Address → ℕ) {k : JPKey IPv4Address} (hno : ¬jp.Asked k) :
    statesAfter cfg.pimsmConfig.neighbor expiry ds k ≤ expiry k := by
  apply Arrival.applyAll_le
  intro a ha
  obtain ⟨d, hd, rfl⟩ := List.mem_map.mp ha
  rcases hsent d hd with hd | hd
  · exact updates_arrival_ne_refresh h hd hno
  · exact inverse_arrival_ne_refresh h hd k

/-- Copies of the updates that come in any order, some of them more than once, leave the neighbor
with the states of the configuration. -/
theorem neighbor_any_order (h : BuiltFrom jp cfg) (expiry : JPKey IPv4Address → ℕ)
    (ds : List Datagram) (hsorted : ds.Pairwise fun a b => a.time ≤ b.time)
    (hsent : ∀ d ∈ ds, d.IsSent cfg cfg.updates) (t : ℕ) :
    let states := statesAfter cfg.pimsmConfig.neighbor expiry ds
    (∀ k, Alive states t k → jp.Asked k ∨ Alive expiry t k) ∧
    ((∀ pkt ∈ updatePackets cfg cfg.updates, ∃ d ∈ ds, d.Copies pkt ∧
        t < d.time + nanos cfg.pimsmConfig.jpHoldtime.toNat) →
      (∀ k, jp.Asked k → Alive states t k) ∧
      (∀ a rp s, jp.Asked (.shared a rp) → (Alive states t (.rptPrune a s) ↔
        jp.Asked (.rptPrune a s))) ∧
      ((∀ k, Alive expiry t k → jp.Asked k) → ∀ k, Alive states t k ↔ jp.Asked k)) := by
  intro states
  refine ⟨fun k halive => ?_, fun hfresh => ⟨fun k hasked => ?_, fun a rp s hshared => ?_,
    fun hinit k => ?_⟩⟩
  · by_contra hno
    rw [not_or] at hno
    have hle := statesAfter_only h (fun d hd => Or.inl (hsent d hd)) expiry hno.1
    exact hno.2 (lt_of_lt_of_le halive hle)
  · exact (statesAfter_iff h hsorted hsent hfresh (absurd hasked)).mpr hasked
  · exact statesAfter_iff h hsorted hsent hfresh fun hno =>
      Or.inr (h.conveys.ended a rp s hshared hno)
  · exact statesAfter_iff h hsorted hsent hfresh fun hno =>
      Or.inl (Nat.le_of_not_lt fun halive => hno (hinit k halive))

end AnyOrder

/-- Both copies of every update, the last update first. -/
theorem neighbor_any_order_example : ∃ (cfg : PIMCConfig IPv4Address) (ds : List Datagram),
    BuiltFrom exampleConfig cfg ∧ ds.length = 2 * cfg.updates.length ∧
    ∀ k, Alive (statesAfter cfg.pimsmConfig.neighbor (fun _ => 0) ds) 5 k ↔
      exampleConfig.Asked k := by
  obtain ⟨cfg, h, hpimsm⟩ := @exists_builtFrom exampleConfig (by decide) (by decide)
    samplePIMCConfig.pimsmConfig
  obtain ⟨sent, hdef⟩ : ∃ sent : List Sent, sent =
    (updatePackets cfg cfg.updates).map fun pkt => ⟨pkt, "Join/Prune Update", 0⟩ := ⟨_, rfl⟩
  have htime : ∀ d ∈ instant (sent.reverse ++ sent), d.time = 0 := by
    intro d hd
    obtain ⟨s, hs, rfl⟩ := List.mem_map.mp hd
    have hs : s ∈ sent := by simpa using hs
    rw [hdef] at hs
    obtain ⟨pkt, _, rfl⟩ := List.mem_map.mp hs
    rfl
  have hsorted : (instant (sent.reverse ++ sent)).Pairwise fun a b => a.time ≤ b.time :=
    List.pairwise_of_forall_mem_list fun a ha b hb => by rw [htime a ha, htime b hb]
  have hsent : ∀ d ∈ instant (sent.reverse ++ sent), d.IsSent cfg cfg.updates := by
    intro d hd
    obtain ⟨s, hs, rfl⟩ := List.mem_map.mp hd
    have hs : s ∈ sent := by simpa using hs
    rw [hdef] at hs
    obtain ⟨pkt, hpkt, rfl⟩ := List.mem_map.mp hs
    exact ⟨pkt, instant_copies _, Or.inl hpkt⟩
  refine ⟨cfg, instant (sent.reverse ++ sent), h, by simp [instant, hdef, updatePackets]; omega, ?_⟩
  refine ((neighbor_any_order h (fun _ => 0) _ hsorted hsent 5).2 fun pkt hpkt => ?_).2.2
    fun k hk => absurd hk (Nat.not_lt_zero 5)
  have hin : (⟨pkt, "Join/Prune Update", 0⟩ : Sent) ∈ sent.reverse ++ sent := by
    rw [hdef]
    exact List.mem_append_right _ (List.mem_map_of_mem hpkt)
  have hhold : 5 < 0 + nanos cfg.pimsmConfig.jpHoldtime.toNat := by
    rw [hpimsm]
    decide
  exact ⟨_, List.mem_map_of_mem hin, instant_copies _, hhold⟩

/-! ### A run -/

/-- What the network hands over, in order of arrival: copies of what was sent before. -/
structure Delivers (sent : List Sent) (ds : List Datagram) : Prop where
  sorted : ds.Pairwise fun a b => a.time ≤ b.time
  source : ∀ d ∈ ds, ∃ s ∈ sent, d.Copies s.pkt ∧ s.cts.toNat ≤ d.time

/-- Of `m + 1` rounds in a row a copy of each packet arrives within `delay`. -/
def Reaches (m delay : ℕ) (rounds : List ℕ) (pkts : List PIMPacket) (ds : List Datagram) : Prop :=
  ∀ pkt ∈ pkts, ∀ j, j + m < rounds.length → ∃ i r, j ≤ i ∧ i ≤ j + m ∧ rounds[i]? = some r ∧
    ∃ d ∈ ds, d.Copies pkt ∧ r ≤ d.time ∧ d.time ≤ r + delay

theorem mem_calls {cfg : PIMCConfig IPv4Address} {its : List Iteration} {s : Sent}
    (h : s ∈ its.flatMap (Iteration.calls cfg)) :
    s.pkt ∈ updatePackets cfg cfg.updates ∨ ∃ hello, s.pkt = .hello hello := by
  obtain ⟨it, _, hs⟩ := List.mem_flatMap.mp h
  rcases List.mem_append.mp hs with hs | hs
  · split_ifs at hs
    · rw [List.mem_singleton.mp hs]
      exact Or.inr ⟨_, rfl⟩
    · cases hs
  · split_ifs at hs
    · obtain ⟨pkt, hpkt, rfl⟩ := List.mem_map.mp hs
      exact Or.inl hpkt
    · cases hs

theorem mem_shutdownFrom {host : Host} {cfg : PIMCConfig IPv4Address} {k : ℕ} {s : Sent}
    (h : s ∈ shutdownFrom host cfg k) :
    s.pkt ∈ updatePackets cfg cfg.inverseUpdates ∨ ∃ hello, s.pkt = .hello hello := by
  rcases List.mem_append.mp h with hs | hs
  · obtain ⟨pkt, hpkt, rfl⟩ := List.mem_map.mp hs
    exact Or.inl hpkt
  · rw [List.mem_singleton.mp hs]
    exact Or.inr ⟨_, rfl⟩

section Run

variable {host : Host} {cfg : PIMCConfig IPv4Address} {n d : ℕ}

theorem getLast_cons_of_getLast? {us : List ℕ} {a u : ℕ} (h : us.getLast? = some u) :
    (a :: us).getLast (List.cons_ne_nil _ _) = u := by
  have hne : us ≠ [] := by
    rintro rfl
    cases h
  rw [List.getLast_cons hne]
  exact Option.some.inj ((List.getLast?_eq_some_getLast hne).symm.trans h)

theorem readings_getLast (host : Host) (n : ℕ) : ((host.gethostnanos 0).toNat ::
    (timersFrom host 1 n).map fun t => t.cts.toNat).getLast (List.cons_ne_nil _ _) =
      (host.gethostnanos n).toNat := by
  cases n with
  | zero => rfl
  | succ n =>
    apply getLast_cons_of_getLast?
    simp [timersFrom, List.range'_concat, Nat.add_comm, Timer.cts]

/-- The last round is less than a period old at the last reading. -/
theorem updateTimes_recent (hpos : 0 < nanos cfg.pimsmConfig.jpPeriod.toNat)
    (hclock : ∀ k < n, Within d (host.gethostnanos k).toNat (host.gethostnanos (k + 1)).toNat)
    (hupdate : ∀ k ≤ n,
      (host.gethostnanos k).toNat + nanos cfg.pimsmConfig.jpPeriod.toNat < 2 ^ 64) :
    ∀ u ∈ (updateTimes (mainIterations host cfg n)).getLast?,
      (host.gethostnanos n).toNat < u + nanos cfg.pimsmConfig.jpPeriod.toNat := by
  have hchain : ((host.gethostnanos 0).toNat ::
      (timersFrom host 1 n).map fun t => t.cts.toNat).IsChain (Within d) :=
    timersFrom_chain fun i hi => hclock i (by omega)
  have hrecent := rings_recent hchain hpos rfl (Nat.lt_add_of_pos_right hpos)
  intro u hu
  rw [updateTimes_eq hupdate, Option.mem_def] at hu
  rw [getLast_cons_of_getLast? hu, readings_getLast] at hrecent
  exact hrecent

theorem updateTimes_chain
    (hclock : ∀ k < n, Within d (host.gethostnanos k).toNat (host.gethostnanos (k + 1)).toNat)
    (hupdate : ∀ k ≤ n,
      (host.gethostnanos k).toNat + nanos cfg.pimsmConfig.jpPeriod.toNat < 2 ^ 64) :
    (updateTimes (mainIterations host cfg n)).IsChain (fun a b => a ≤ b) ∧
      (updateTimes (mainIterations host cfg n)).IsChain
        fun a b => b ≤ a + (nanos cfg.pimsmConfig.jpPeriod.toNat + d) := by
  have hgaps := (updateTimes_gaps hclock hupdate).tail
  have hle := hgaps.imp fun (a b : ℕ) h => le_trans (Nat.le_add_right a _) h.1
  have hspan := hgaps.imp fun (a b : ℕ) h =>
    (show b ≤ a + (nanos cfg.pimsmConfig.jpPeriod.toNat + d) from Nat.add_assoc a _ d ▸ h.2.1)
  exact ⟨hle, hspan⟩

/-- At every moment of a run, from the first rounds on, each update has arrived within the hold
time. -/
theorem arrived_recently {m delay : ℕ} (hpos : 0 < nanos cfg.pimsmConfig.jpPeriod.toNat)
    (hclock : ∀ k < n, Within d (host.gethostnanos k).toNat (host.gethostnanos (k + 1)).toNat)
    (hupdate : ∀ k ≤ n,
      (host.gethostnanos k).toNat + nanos cfg.pimsmConfig.jpPeriod.toNat < 2 ^ 64)
    {ds : List Datagram} {pkts : List PIMPacket}
    (hreach : Reaches m delay (updateTimes (mainIterations host cfg n)) pkts ds)
    {hold : ℕ} (hroom : (m + 1) * (nanos cfg.pimsmConfig.jpPeriod.toNat + d) + delay ≤ hold)
    {t r : ℕ} (hr : (updateTimes (mainIterations host cfg n))[m]? = some r)
    (hstart : r + delay ≤ t) (hend : t ≤ (host.gethostnanos n).toNat) :
    ∀ pkt ∈ pkts, ∃ d ∈ ds.filter (·.time ≤ t), d.Copies pkt ∧ t < d.time + hold := by
  obtain ⟨hmono, hspan⟩ := @updateTimes_chain host cfg n d hclock hupdate
  have hrecent := updateTimes_recent hpos hclock hupdate
  obtain ⟨j, u, hmj, hu, hseen, hlate⟩ := exists_round hspan hr hstart fun u hu => by
    have hlt := hrecent u hu
    omega
  obtain ⟨hj, _⟩ := List.getElem?_eq_some_iff.mp hu
  intro pkt hpkt
  obtain ⟨i, v, hi, hij, hv, a, ha, hcopies, hsince, huntil⟩ :=
    hreach pkt hpkt (j - m) (by omega)
  have hvu : v ≤ u := rounds_mono hmono (by omega) hv hu
  have huv : u ≤ v + (j - i) * (nanos cfg.pimsmConfig.jpPeriod.toNat + d) :=
    rounds_span hspan (by omega) hv hu
  have hcount : (j - i) * (nanos cfg.pimsmConfig.jpPeriod.toNat + d) ≤
      m * (nanos cfg.pimsmConfig.jpPeriod.toNat + d) := Nat.mul_le_mul_right _ (by omega)
  rw [Nat.succ_mul] at hroom
  exact ⟨a, List.mem_filter.mpr ⟨ha, by simp; omega⟩, hcopies, by omega⟩

end Run

theorem iterations_cts (hello : IPv4HelloEvent) (jpUpdate : IPv4JPUpdateEvent)
    (timers : List Timer) :
    (iterations hello jpUpdate timers).map (·.cts) = timers.map (·.cts) := by
  induction timers generalizing hello jpUpdate with
  | nil => rfl
  | cons timer timers ih => simp [iterations, ih]

theorem calls_cts {cfg : PIMCConfig IPv4Address} {it : Iteration} {s : Sent}
    (h : s ∈ it.calls cfg) : s.cts = it.cts := by
  rcases List.mem_append.mp h with hs | hs
  · split_ifs at hs
    · rw [List.mem_singleton.mp hs]
    · cases hs
  · split_ifs at hs
    · obtain ⟨pkt, _, rfl⟩ := List.mem_map.mp hs
      rfl
    · cases hs

section Instant

variable {host : Host} {cfg : PIMCConfig IPv4Address} {n : ℕ}

theorem mainIterations_sorted (h : ∀ k < n, host.gethostnanos k ≤ host.gethostnanos (k + 1)) :
    (mainIterations host cfg n).Pairwise fun a b => a.cts.toNat ≤ b.cts.toNat := by
  have hmono : ∀ i j, i ≤ j → j ≤ n → (host.gethostnanos i).toNat ≤ (host.gethostnanos j).toNat := by
    intro i j hij
    induction j, hij using Nat.le_induction with
    | base => exact fun _ => le_rfl
    | succ j hij ih => exact fun hj => le_trans (ih (by omega)) (h j (by omega))
  have hreadings : ((timersFrom host 1 n).map (·.cts)).Pairwise fun a b => a.toNat ≤ b.toNat := by
    rw [timersFrom, List.map_map, List.pairwise_map, List.pairwise_iff_getElem]
    intro i j hi hj hij
    simp only [List.length_range'] at hi hj
    simp only [List.getElem_range', Function.comp_apply]
    exact hmono _ _ (by omega) (by omega)
  rw [← iterations_cts (start host cfg).hello (start host cfg).jpUpdate, List.pairwise_map] at hreadings
  exact hreadings

theorem instant_delivers (h : ∀ k < n, host.gethostnanos k ≤ host.gethostnanos (k + 1)) :
    Delivers (mainCalls host cfg n) (instant (mainCalls host cfg n)) := by
  refine ⟨?_, fun d hd => ?_⟩
  · unfold instant mainCalls
    rw [List.pairwise_map, List.pairwise_flatMap]
    refine ⟨fun it _ => ?_, (mainIterations_sorted h).imp fun {a b} hab x hx y hy => ?_⟩
    · refine List.Pairwise.imp_of_mem (fun hx hy _ => ?_) (List.pairwise_of_forall fun _ _ => trivial)
      rw [calls_cts hx, calls_cts hy]
    · rw [calls_cts hx, calls_cts hy]
      exact hab
  · obtain ⟨s, hs, rfl⟩ := List.mem_map.mp hd
    exact ⟨s, hs, instant_copies s, le_rfl⟩

theorem instant_reaches : Reaches 0 0 (updateTimes (mainIterations host cfg n))
    (updatePackets cfg cfg.updates) (instant (mainCalls host cfg n)) := by
  intro pkt hpkt j hj
  have hget : (updateTimes (mainIterations host cfg n))[j]? =
      some (updateTimes (mainIterations host cfg n))[j] := List.getElem?_eq_getElem hj
  obtain ⟨it, hit, hcts⟩ := List.mem_map.mp (List.getElem_mem hj)
  obtain ⟨hit, hupdate⟩ := List.mem_filter.mp hit
  have hsent : (⟨pkt, "Join/Prune Update", it.cts⟩ : Sent) ∈ mainCalls host cfg n := by
    refine List.mem_flatMap.mpr ⟨it, hit, List.mem_append_right _ ?_⟩
    rw [if_pos hupdate]
    exact List.mem_map_of_mem hpkt
  exact ⟨j, _, le_rfl, le_rfl, hget, _, List.mem_map_of_mem hsent, instant_copies _, hcts.ge, hcts.le⟩

end Instant

section Run

variable {jp : JPConfig IPv4Address} {cfg : PIMCConfig IPv4Address} {host : Host} {n : ℕ}
  {ds : List Datagram}

theorem ipv4exec_trace (hcreate : host.create = none) (hsend : ∀ k, host.sendto k = none)
    (hrun : ∀ k < n, host.stopped k = false) : (ipv4exec host cfg n).2 = mainCalls host cfg n := by
  rw [ipv4exec_running hcreate hrun,
    attempted_of_allSucceed (allSucceed_of_none hsend 0 (mainCalls host cfg n))]

theorem isSent_of_delivers (hnet : Delivers (mainCalls host cfg n) ds) :
    ∀ d ∈ ds, d.IsSent cfg cfg.updates := by
  intro d hd
  obtain ⟨s, hs, hcopies, _⟩ := hnet.source d hd
  exact ⟨s.pkt, hcopies, mem_calls hs⟩

/-- The datagrams of a run that may have been stopped. -/
theorem isSent_of_run {fuel : ℕ}
    (hsource : ∀ d ∈ ds, ∃ s ∈ (ipv4exec host cfg fuel).2, d.Copies s.pkt) :
    ∀ d ∈ ds, d.IsSent cfg cfg.updates ∨ d.IsSent cfg cfg.inverseUpdates := by
  intro d hd
  obtain ⟨s, hs, hcopies⟩ := hsource d hd
  obtain ⟨n, hs⟩ := mem_ipv4exec hs
  rcases List.mem_append.mp hs with hs | hs
  · exact Or.inl ⟨s.pkt, hcopies, mem_calls hs⟩
  · exact Or.inr ⟨s.pkt, hcopies, mem_shutdownFrom hs⟩

theorem states_only (h : BuiltFrom jp cfg)
    (hsent : ∀ d ∈ ds, d.IsSent cfg cfg.updates ∨ d.IsSent cfg cfg.inverseUpdates) {t : ℕ}
    {k : JPKey IPv4Address}
    (halive : Alive (statesAfter cfg.pimsmConfig.neighbor (fun _ => 0) ds) t k) : jp.Asked k := by
  by_contra hno
  have hle := statesAfter_only h hsent (fun _ => 0) hno
  exact absurd (lt_of_lt_of_le halive hle) (Nat.not_lt_zero t)

theorem states_exact (h : BuiltFrom jp cfg) {d m delay : ℕ}
    (hclock : ∀ k < n, Within d (host.gethostnanos k).toNat (host.gethostnanos (k + 1)).toNat)
    (hupdate : ∀ k ≤ n,
      (host.gethostnanos k).toNat + nanos cfg.pimsmConfig.jpPeriod.toNat < 2 ^ 64)
    (hpos : 0 < nanos cfg.pimsmConfig.jpPeriod.toNat)
    (hroom : (m + 1) * (nanos cfg.pimsmConfig.jpPeriod.toNat + d) + delay ≤
      nanos cfg.pimsmConfig.jpHoldtime.toNat)
    (hsorted : ds.Pairwise fun a b => a.time ≤ b.time)
    (hsent : ∀ d ∈ ds, d.IsSent cfg cfg.updates)
    (hreach : Reaches m delay (updateTimes (mainIterations host cfg n))
      (updatePackets cfg cfg.updates) ds) {t r : ℕ}
    (hr : (updateTimes (mainIterations host cfg n))[m]? = some r) (hstart : r + delay ≤ t)
    (hend : t ≤ (host.gethostnanos n).toNat) (k : JPKey IPv4Address) :
    Alive (statesAfter cfg.pimsmConfig.neighbor (fun _ => 0) (ds.filter (·.time ≤ t))) t k ↔
      jp.Asked k := by
  have hfresh := arrived_recently hpos hclock hupdate hreach hroom hr hstart hend
  exact statesAfter_iff h (hsorted.filter _) (fun d hd => hsent d (List.mem_of_mem_filter hd)) hfresh
    fun _ => Or.inl (Nat.zero_le t)

end Run

/-- Whatever arrives of a run and its shutdown, the neighbor never has a state that is not in the
configuration, and it has all of them from the first rounds on, as long as the hold time covers
the rounds that may be lost. -/
theorem neighbor_keeps_states {jp : JPConfig IPv4Address} {cfg : PIMCConfig IPv4Address}
    (h : BuiltFrom jp cfg) (host : Host) :
    (∀ (fuel : ℕ) (ds : List Datagram),
      (∀ d ∈ ds, ∃ s ∈ (ipv4exec host cfg fuel).2, d.Copies s.pkt) → ∀ t k,
        Alive (statesAfter cfg.pimsmConfig.neighbor (fun _ => 0) ds) t k → jp.Asked k) ∧
    ∀ n d m delay : ℕ, host.create = none → (∀ k, host.sendto k = none) →
      (∀ k < n, host.stopped k = false) →
      (∀ k < n, Within d (host.gethostnanos k).toNat (host.gethostnanos (k + 1)).toNat) →
      (∀ k ≤ n, (host.gethostnanos k).toNat + nanos cfg.pimsmConfig.jpPeriod.toNat < 2 ^ 64) →
      0 < nanos cfg.pimsmConfig.jpPeriod.toNat →
      (m + 1) * (nanos cfg.pimsmConfig.jpPeriod.toNat + d) + delay ≤
        nanos cfg.pimsmConfig.jpHoldtime.toNat →
      ∀ ds, Delivers (ipv4exec host cfg n).2 ds →
      Reaches m delay (updateTimes (mainIterations host cfg n)) (updatePackets cfg cfg.updates) ds →
      ∀ t, (∃ r, (updateTimes (mainIterations host cfg n))[m]? = some r ∧ r + delay ≤ t) →
      t ≤ (host.gethostnanos n).toNat → ∀ k,
        Alive (statesAfter cfg.pimsmConfig.neighbor (fun _ => 0) (ds.filter (·.time ≤ t))) t k ↔
          jp.Asked k := by
  constructor
  · intro fuel ds hsource t k halive
    exact states_only h (isSent_of_run hsource) halive
  · intro n d m delay hcreate hsend hrun hclock hupdate hpos hroom ds hnet hreach t hstarted hend k
    rw [ipv4exec_trace hcreate hsend hrun] at hnet
    obtain ⟨r, hr, hstart⟩ := hstarted
    exact states_exact h hclock hupdate hpos hroom hnet.sorted (isSent_of_delivers hnet) hreach hr
      hstart hend k

/-- The network of `instant` at readings 25 seconds apart, and everything the run hands over up to
its end, the last packet first. -/
theorem neighbor_keeps_states_example : ∃ cfg : PIMCConfig IPv4Address,
    BuiltFrom exampleConfig cfg ∧
    (∀ t k, Alive (statesAfter cfg.pimsmConfig.neighbor (fun _ => 0)
      (instant (ipv4exec slowHost cfg 7).2).reverse) t k → exampleConfig.Asked k) ∧
    ∀ k, Alive (statesAfter cfg.pimsmConfig.neighbor (fun _ => 0)
      ((instant (ipv4exec slowHost cfg 6).2).filter (·.time ≤ nanos 100))) (nanos 100) k ↔
        exampleConfig.Asked k := by
  obtain ⟨cfg, h, hpimsm⟩ := @exists_builtFrom exampleConfig (by decide) (by decide)
    samplePIMCConfig.pimsmConfig
  have htrace : (ipv4exec slowHost cfg 6).2 = mainCalls slowHost cfg 6 :=
    ipv4exec_trace rfl (fun _ => rfl) (by decide)
  have hclock : ∀ k < 6, Within (nanos 25) (slowHost.gethostnanos k).toNat
      (slowHost.gethostnanos (k + 1)).toNat := by decide
  have hperiod : ∀ k ≤ 6,
      (slowHost.gethostnanos k).toNat + nanos cfg.pimsmConfig.jpPeriod.toNat < 2 ^ 64 := by
    rw [hpimsm]
    decide
  have hround : (updateTimes (mainIterations slowHost cfg 6))[0]? = some (nanos 75) := by
    rw [updateTimes_eq hperiod, hpimsm]
    decide
  obtain ⟨honly, hkeeps⟩ := neighbor_keeps_states h slowHost
  refine ⟨cfg, h, honly 7 _ fun d hd => instant_source (List.mem_reverse.mp hd), ?_⟩
  exact hkeeps 6 (nanos 25) 0 0 rfl (fun _ => rfl) (by decide) hclock hperiod
    (by rw [hpimsm]; decide) (by rw [hpimsm]; decide) (instant (ipv4exec slowHost cfg 6).2)
    (htrace ▸ instant_delivers fun k hk => BitVec.le_def.mpr (hclock k hk).1)
    (htrace ▸ instant_reaches) (nanos 100) ⟨nanos 75, hround, by decide⟩ (by decide)

/-! ### The goodbye -/

section Goodbye

variable {jp : JPConfig IPv4Address} {cfg : PIMCConfig IPv4Address} {host : Host} {reading : ℕ}
  {ds : List Datagram}

theorem goodbye_cases (h : BuiltFrom jp cfg)
    (hsource : ∀ d ∈ ds, ∃ s ∈ shutdownFrom host cfg reading, d.Copies s.pkt) :
    ∀ d ∈ ds, (∃ u ∈ cfg.inverseUpdates, d.arrival cfg.pimsmConfig.neighbor =
      ⟨d.time, nanos cfg.pimsmConfig.jpHoldtime.toNat, jpEffect u⟩) ∨
      ∀ k, (d.arrival cfg.pimsmConfig.neighbor).effect k = .keep := by
  intro d hd
  obtain ⟨s, hs, hcopies⟩ := hsource d hd
  exact isSent_cases (fun _ => h.inverse_size_le) ⟨s.pkt, hcopies, mem_shutdownFrom hs⟩

theorem goodbye_no_refresh (h : BuiltFrom jp cfg)
    (hsource : ∀ d ∈ ds, ∃ s ∈ shutdownFrom host cfg reading, d.Copies s.pkt)
    (k : JPKey IPv4Address) :
    ∀ a ∈ ds.map (Datagram.arrival cfg.pimsmConfig.neighbor), a.effect k ≠ .refresh := by
  intro a ha
  obtain ⟨d, hd, rfl⟩ := List.mem_map.mp ha
  obtain ⟨s, hs, hcopies⟩ := hsource d hd
  exact inverse_arrival_ne_refresh h ⟨s.pkt, hcopies, mem_shutdownFrom hs⟩ k

theorem goodbye_shrinks (h : BuiltFrom jp cfg)
    (hsource : ∀ d ∈ ds, ∃ s ∈ shutdownFrom host cfg reading, d.Copies s.pkt)
    (expiry : JPKey IPv4Address → ℕ) {t : ℕ} {k : JPKey IPv4Address}
    (halive : Alive (statesAfter cfg.pimsmConfig.neighbor expiry ds) t k) : Alive expiry t k :=
  lt_of_lt_of_le halive (Arrival.applyAll_le expiry (goodbye_no_refresh h hsource k))

theorem goodbye_removes (h : BuiltFrom jp cfg)
    (hsource : ∀ d ∈ ds, ∃ s ∈ shutdownFrom host cfg reading, d.Copies s.pkt)
    (hall : ∀ s ∈ shutdownFrom host cfg reading, ∃ d ∈ ds, d.Copies s.pkt)
    (expiry : JPKey IPv4Address → ℕ) (t : ℕ) {k : JPKey IPv4Address}
    (hk : ∃ u ∈ cfg.inverseUpdates, jpEffect u k = .remove) :
    ¬Alive (statesAfter cfg.pimsmConfig.neighbor expiry ds) t k := by
  obtain ⟨u, hu, heff⟩ := hk
  obtain ⟨n, hpkt⟩ := exists_updatePacket cfg hu
  obtain ⟨d, hd, hcopies⟩ := hall ⟨_, "Goodbye Join/Prune Update", host.gethostnanos reading⟩
    (List.mem_append_left _ (List.mem_map_of_mem hpkt))
  have hremoved : (d.arrival cfg.pimsmConfig.neighbor).effect k = .remove := by
    rw [arrival_update (h.inverse_size_le hu) hcopies]
    exact heff
  have hzero : statesAfter cfg.pimsmConfig.neighbor expiry ds k = 0 :=
    Arrival.applyAll_removed expiry (goodbye_no_refresh h hsource k) (List.mem_map_of_mem hd)
      hremoved
  unfold Alive
  omega

theorem goodbye_keeps (h : BuiltFrom jp cfg)
    (hsource : ∀ d ∈ ds, ∃ s ∈ shutdownFrom host cfg reading, d.Copies s.pkt)
    (expiry : JPKey IPv4Address → ℕ) {k : JPKey IPv4Address}
    (hk : ∀ u ∈ cfg.inverseUpdates, jpEffect u k ≠ .remove) :
    statesAfter cfg.pimsmConfig.neighbor expiry ds k = expiry k := by
  apply Arrival.applyAll_keep
  intro a ha
  have hrefresh := goodbye_no_refresh h hsource k a ha
  have hremove : a.effect k ≠ .remove := by
    obtain ⟨d, hd, rfl⟩ := List.mem_map.mp ha
    rcases goodbye_cases h hsource d hd with ⟨u, hu, heq⟩ | hkeep
    · rw [heq]
      exact hk u hu
    · rw [hkeep]
      simp
  cases heff : a.effect k with
  | keep => rfl
  | refresh => exact absurd heff hrefresh
  | remove => exact absurd heff hremove

end Goodbye

/-- After the goodbye the source trees are gone, and the shared trees are gone if and only if
inverse packing has lost no RP. -/
theorem neighbor_forgets_iff {jp : JPConfig IPv4Address} {cfg : PIMCConfig IPv4Address}
    (h : BuiltFrom jp cfg) (host : Host) (reading : ℕ) (ds : List Datagram)
    (hsource : ∀ d ∈ ds, ∃ s ∈ shutdownFrom host cfg reading, d.Copies s.pkt)
    (hall : ∀ s ∈ shutdownFrom host cfg reading, ∃ d ∈ ds, d.Copies s.pkt)
    (expiry : JPKey IPv4Address → ℕ) (t : ℕ) :
    let states := statesAfter cfg.pimsmConfig.neighbor expiry ds
    (∀ k, Alive states t k → Alive expiry t k) ∧
    (∀ a s, jp.Asked (.sg a s) → ¬Alive states t (.sg a s)) ∧
    ((∀ k, jp.Asked k → Alive expiry t k) →
      ((∀ a rp, jp.Asked (.shared a rp) → ¬Alive states t (.shared a rp)) ↔
        InverseUpdatePacker.NoLoss jp.groups)) := by
  intro states
  obtain ⟨us, hpack, hus, hloss⟩ := inversePack_withdraws jp h.distinct
  rw [hpack.unique h.inverseUpdates] at hus hloss
  refine ⟨fun k hk => goodbye_shrinks h hsource expiry hk,
    fun a s hasked => goodbye_removes h hsource hall expiry t (hus.source_trees a s hasked),
    fun halive => ?_⟩
  rw [hloss]
  constructor
  · intro hdead a rp hasked
    by_contra hno
    have hkeep : states (.shared a rp) = expiry (.shared a rp) :=
      goodbye_keeps h hsource expiry fun u hu heff => hno ⟨u, hu, heff⟩
    apply hdead a rp hasked
    unfold Alive
    rw [hkeep]
    exact halive _ hasked
  · intro hremoved a rp hasked
    exact goodbye_removes h hsource hall expiry t (hremoved a rp hasked)

/-- The packets of a shutdown, each of them twice. -/
theorem neighbor_forgets_iff_example : ∃ cfg : PIMCConfig IPv4Address,
    BuiltFrom exampleConfig cfg ∧
    let states := statesAfter cfg.pimsmConfig.neighbor (fun _ => 1)
      (instant (shutdownFrom sampleHost cfg 3 ++ shutdownFrom sampleHost cfg 3))
    (∀ a s, exampleConfig.Asked (.sg a s) → ¬Alive states 0 (.sg a s)) ∧
    ((∀ a rp, exampleConfig.Asked (.shared a rp) → ¬Alive states 0 (.shared a rp)) ↔
      InverseUpdatePacker.NoLoss exampleConfig.groups) := by
  obtain ⟨cfg, h, _⟩ := @exists_builtFrom exampleConfig (by decide) (by decide)
    samplePIMCConfig.pimsmConfig
  have hsource : ∀ d ∈ instant (shutdownFrom sampleHost cfg 3 ++ shutdownFrom sampleHost cfg 3),
      ∃ s ∈ shutdownFrom sampleHost cfg 3, d.Copies s.pkt := by
    intro d hd
    obtain ⟨s, hs, hcopies⟩ := instant_source hd
    exact ⟨s, (List.mem_append.mp hs).elim id id, hcopies⟩
  have hall : ∀ s ∈ shutdownFrom sampleHost cfg 3,
      ∃ d ∈ instant (shutdownFrom sampleHost cfg 3 ++ shutdownFrom sampleHost cfg 3),
        d.Copies s.pkt :=
    fun s hs => instant_arrives (List.mem_append_left _ hs)
  obtain ⟨-, htrees, hshared⟩ :=
    neighbor_forgets_iff h sampleHost 3 _ hsource hall (fun _ => 1) 0
  exact ⟨cfg, h, htrees, hshared fun _ _ => Nat.zero_lt_one⟩

end Pimc
