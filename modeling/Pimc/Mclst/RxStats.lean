import Mathlib.Algebra.BigOperators.Group.List.Basic
import Mathlib.Algebra.Order.BigOperators.Group.List
import Mathlib.Algebra.Order.Ring.Nat
import Mathlib.Data.List.Induction
import Pimc.Lib.Containers
import Pimc.Net.IPv4Address

/-!
# Receive statistics (apps/mclst/RxStats.hpp)

The duration is left out. `forEach` is given by the arguments of the calls that
it makes.
-/

namespace Pimc.Mclst

open Lib

abbrev FlowId := BitVec 64

-- `std::less<uint64_t>`.
local instance : LinearOrder FlowId where
  le_refl a := BitVec.le_refl a
  le_trans _ _ _ h h' := BitVec.le_trans h h'
  lt_iff_le_not_ge a b := by
    rw [BitVec.lt_def, BitVec.le_def, BitVec.le_def]
    omega
  le_antisymm _ _ h h' := BitVec.le_antisymm h h'
  le_total a b := BitVec.le_total a b
  toDecidableLE := inferInstance
  toDecidableLT := inferInstance
  toDecidableEq := inferInstance

def flowId (src : IPv4Address) (sport dport : BitVec 16) : FlowId :=
  (dport.setWidth 64 <<< 48) + (src.value.setWidth 64 <<< 16) + sport.setWidth 64

def flowSource (flowId : FlowId) : IPv4Address :=
  ⟨((flowId >>> 16) &&& 0xFFFFFFFF).setWidth 32⟩

def flowSPort (flowId : FlowId) : BitVec 16 := (flowId &&& 0xFFFF).setWidth 16

def flowDPort (flowId : FlowId) : BitVec 16 := ((flowId >>> 48) &&& 0xFFFF).setWidth 16

structure FlowStats where
  pkts : BitVec 64
  bytes : BitVec 64
  deriving DecidableEq, Repr

namespace FlowStats

def withHeaders (udpBytes : BitVec 64) : BitVec 64 := 12 + 20 + 8 + udpBytes + 4

def mk' (udpBytes : BitVec 64) : FlowStats := ⟨1, withHeaders udpBytes⟩

def add (fs : FlowStats) (udpBytes : BitVec 64) : FlowStats :=
  ⟨fs.pkts + 1, fs.bytes + withHeaders udpBytes⟩

end FlowStats

structure RxStats where
  fsMap : UnorderedMap FlowId FlowStats
  fids : OrdSet FlowId

/-- The arguments of a call of `forEach`'s function; a missing entry would be the end of the map. -/
structure FlowVisit where
  source : IPv4Address
  sport : BitVec 16
  dport : BitVec 16
  fs : Option FlowStats
  deriving DecidableEq, Repr

namespace RxStats

def empty : RxStats := ⟨UnorderedMap.empty, OrdSet.empty⟩

def update (rs : RxStats) (source : IPv4Address) (sport dport : BitVec 16)
    (udpBytes : BitVec 64) : RxStats :=
  let fid := flowId source sport dport
  let fme := rs.fsMap.tryEmplace fid (FlowStats.mk' udpBytes)
  if !fme.2 then { rs with fsMap := fme.1.modify fid (·.add udpBytes) }
  else ⟨fme.1, (rs.fids.emplace fid).1⟩

def forEach (rs : RxStats) : List FlowVisit :=
  rs.fids.toList.map fun fid =>
    ⟨flowSource fid, flowSPort fid, flowDPort fid, rs.fsMap.find? fid⟩

def size (rs : RxStats) : ℕ := rs.fsMap.entries.length

end RxStats

/-! ### Flow ids -/

theorem flowId_toNat (src : IPv4Address) (sport dport : BitVec 16) :
    (flowId src sport dport).toNat =
      dport.toNat * 2 ^ 48 + src.addr.toNat * 2 ^ 16 + sport.toNat := by
  have hsrc := src.addr.isLt
  have hsport := sport.isLt
  have hdport := dport.isLt
  unfold flowId IPv4Address.value
  simp only [BitVec.toNat_add, BitVec.toNat_shiftLeft, BitVec.toNat_setWidth, Nat.shiftLeft_eq]
  omega

theorem mask_toNat {mask : BitVec 64} {n : ℕ} (v : BitVec 64) (hmask : mask.toNat = 2 ^ n - 1) :
    (v &&& mask).toNat = v.toNat % 2 ^ n := by
  rw [BitVec.toNat_and, hmask]
  exact Nat.and_two_pow_sub_one_eq_mod v.toNat n

theorem mask16_toNat : (0xFFFF : BitVec 64).toNat = 2 ^ 16 - 1 := rfl

theorem mask32_toNat : (0xFFFFFFFF : BitVec 64).toNat = 2 ^ 32 - 1 := rfl

theorem flowSource_flowId (src : IPv4Address) (sport dport : BitVec 16) :
    flowSource (flowId src sport dport) = src := by
  have hid := flowId_toNat src sport dport
  have hsrc := src.addr.isLt
  have hsport := sport.isLt
  apply IPv4Address.ext
  apply BitVec.eq_of_toNat_eq
  have hmask := mask_toNat (flowId src sport dport >>> 16) mask32_toNat
  rw [BitVec.toNat_ushiftRight, Nat.shiftRight_eq_div_pow] at hmask
  unfold flowSource
  rw [BitVec.toNat_setWidth, hmask]
  omega

theorem flowSPort_flowId (src : IPv4Address) (sport dport : BitVec 16) :
    flowSPort (flowId src sport dport) = sport := by
  have hid := flowId_toNat src sport dport
  have hsport := sport.isLt
  apply BitVec.eq_of_toNat_eq
  have hmask := mask_toNat (flowId src sport dport) mask16_toNat
  unfold flowSPort
  rw [BitVec.toNat_setWidth, hmask]
  omega

theorem flowDPort_flowId (src : IPv4Address) (sport dport : BitVec 16) :
    flowDPort (flowId src sport dport) = dport := by
  have hid := flowId_toNat src sport dport
  have hsrc := src.addr.isLt
  have hsport := sport.isLt
  have hdport := dport.isLt
  apply BitVec.eq_of_toNat_eq
  have hmask := mask_toNat (flowId src sport dport >>> 48) mask16_toNat
  rw [BitVec.toNat_ushiftRight, Nat.shiftRight_eq_div_pow] at hmask
  unfold flowDPort
  rw [BitVec.toNat_setWidth, hmask]
  omega

structure FlowKey where
  source : IPv4Address
  sport : BitVec 16
  dport : BitVec 16
  deriving DecidableEq, Repr

namespace FlowKey

def id (k : FlowKey) : FlowId := flowId k.source k.sport k.dport

/-- The order of (dport, source, sport). -/
def Before (k k' : FlowKey) : Prop :=
  k.dport.toNat < k'.dport.toNat ∨ k.dport = k'.dport ∧
    (k.source < k'.source ∨ k.source = k'.source ∧ k.sport.toNat < k'.sport.toNat)

def ofId (fid : FlowId) : FlowKey := ⟨flowSource fid, flowSPort fid, flowDPort fid⟩

theorem ofId_id (k : FlowKey) : ofId k.id = k := by
  unfold ofId id
  rw [flowSource_flowId, flowSPort_flowId, flowDPort_flowId]

theorem id_injective {k k' : FlowKey} (h : k.id = k'.id) : k = k' := by
  rw [← ofId_id k, ← ofId_id k', h]

theorem before_of_id_lt {k k' : FlowKey} (h : k.id.toNat < k'.id.toNat) : Before k k' := by
  have hid := flowId_toNat k.source k.sport k.dport
  have hid' := flowId_toNat k'.source k'.sport k'.dport
  have hsrc := k.source.addr.isLt
  have hsrc' := k'.source.addr.isLt
  have hsport := k.sport.isLt
  have hsport' := k'.sport.isLt
  unfold id at h
  rw [hid, hid'] at h
  by_cases hdport : k.dport.toNat < k'.dport.toNat
  · exact Or.inl hdport
  · have hdport_eq : k.dport = k'.dport := BitVec.eq_of_toNat_eq (by omega)
    refine Or.inr ⟨hdport_eq, ?_⟩
    rw [hdport_eq] at h
    by_cases hsource : k.source.addr.toNat < k'.source.addr.toNat
    · exact Or.inl hsource
    · have hsource_eq : k.source = k'.source :=
        IPv4Address.ext (BitVec.eq_of_toNat_eq (by omega))
      rw [hsource_eq] at h
      exact Or.inr ⟨hsource_eq, by omega⟩

end FlowKey

/-! ### Runs -/

-- The arguments of a call of `update`.
structure RxUpdate where
  key : FlowKey
  udpBytes : BitVec 64
  deriving DecidableEq, Repr

namespace RxStats

def apply (rs : RxStats) (u : RxUpdate) : RxStats :=
  rs.update u.key.source u.key.sport u.key.dport u.udpBytes

def run (us : List RxUpdate) : RxStats := us.foldl apply empty

def ofFlow (us : List RxUpdate) (k : FlowKey) : List RxUpdate :=
  us.filter fun u => decide (u.key = k)

def bytesOf (us : List RxUpdate) (k : FlowKey) : ℕ :=
  ((ofFlow us k).map fun u => 44 + u.udpBytes.toNat).sum

/-- The entry of a flow with these updates. -/
def statsOf (us : List RxUpdate) : Option FlowStats :=
  if us = [] then none
  else some ⟨BitVec.ofNat 64 us.length,
    BitVec.ofNat 64 (us.map fun u => 44 + u.udpBytes.toNat).sum⟩

/-- The map has the totals of every flow of the updates so far, and the set their ids. -/
structure Counts (us : List RxUpdate) (rs : RxStats) : Prop where
  find : ∀ k : FlowKey, rs.fsMap.find? k.id = statsOf (ofFlow us k)
  ids : ∀ fid, fid ∈ rs.fids.toList ↔ fid ∈ rs.fsMap.keys
  keys : ∀ fid, fid ∈ rs.fsMap.keys ↔ ∃ u ∈ us, u.key.id = fid

theorem counts_empty : Counts [] empty where
  find := fun _ => rfl
  ids := fun _ => iff_of_false List.not_mem_nil List.not_mem_nil
  keys := fun _ => iff_of_false List.not_mem_nil (fun h => by
    obtain ⟨u, hu, _⟩ := h
    cases hu)

theorem withHeaders_eq (udpBytes : BitVec 64) :
    FlowStats.withHeaders udpBytes = BitVec.ofNat 64 (44 + udpBytes.toNat) := by
  have hhdr : (12 + 20 + 8 : BitVec 64).toNat = 40 := rfl
  have hfcs : (4 : BitVec 64).toNat = 4 := rfl
  apply BitVec.eq_of_toNat_eq
  unfold FlowStats.withHeaders
  rw [BitVec.toNat_add, BitVec.toNat_add, hhdr, hfcs, BitVec.toNat_ofNat]
  omega

/-! ### One update -/

theorem apply_eq (rs : RxStats) (u : RxUpdate) :
    rs.apply u =
      if !(rs.fsMap.tryEmplace u.key.id (FlowStats.mk' u.udpBytes)).2 then
        ⟨(rs.fsMap.tryEmplace u.key.id (FlowStats.mk' u.udpBytes)).1.modify u.key.id
          fun fs => fs.add u.udpBytes, rs.fids⟩
      else ⟨(rs.fsMap.tryEmplace u.key.id (FlowStats.mk' u.udpBytes)).1,
        (rs.fids.emplace u.key.id).1⟩ := rfl

theorem apply_known {rs : RxStats} {u : RxUpdate} (h : u.key.id ∈ rs.fsMap.keys) :
    rs.apply u = ⟨rs.fsMap.modify u.key.id fun fs => fs.add u.udpBytes, rs.fids⟩ := by
  have htry : rs.fsMap.tryEmplace u.key.id (FlowStats.mk' u.udpBytes) = (rs.fsMap, false) :=
    dif_pos h
  rw [apply_eq, htry]
  rfl

theorem apply_new {rs : RxStats} {u : RxUpdate} (h : u.key.id ∉ rs.fsMap.keys) :
    rs.apply u = ⟨(rs.fsMap.tryEmplace u.key.id (FlowStats.mk' u.udpBytes)).1,
      (rs.fids.emplace u.key.id).1⟩ := by
  have hnew : (rs.fsMap.tryEmplace u.key.id (FlowStats.mk' u.udpBytes)).2 = true :=
    (UnorderedMap.tryEmplace_snd _ _ _).mpr h
  rw [apply_eq, hnew]
  rfl

theorem apply_find (rs : RxStats) (u : RxUpdate) (fid : FlowId) :
    (rs.apply u).fsMap.find? fid = if fid = u.key.id then
      some (((rs.fsMap.find? u.key.id).map (·.add u.udpBytes)).getD (FlowStats.mk' u.udpBytes))
      else rs.fsMap.find? fid := by
  by_cases hkey : u.key.id ∈ rs.fsMap.keys
  · obtain ⟨fs, hfs⟩ := UnorderedMap.mem_keys.mp hkey
    rw [apply_known hkey]
    rw [UnorderedMap.find?_modify, hfs]
    rfl
  · have hnone := UnorderedMap.find?_eq_none.mpr hkey
    rw [apply_new hkey]
    rw [UnorderedMap.find?_tryEmplace, hnone]
    rfl

theorem apply_ids {rs : RxStats} (u : RxUpdate)
    (hids : ∀ fid, fid ∈ rs.fids.toList ↔ fid ∈ rs.fsMap.keys) (fid : FlowId) :
    fid ∈ (rs.apply u).fids.toList ↔ fid = u.key.id ∨ fid ∈ rs.fsMap.keys := by
  by_cases hkey : u.key.id ∈ rs.fsMap.keys
  · rw [apply_known hkey]
    show fid ∈ rs.fids.toList ↔ _
    rw [hids]
    apply Iff.intro
    · exact Or.inr
    · intro h
      rcases h with rfl | h
      · exact hkey
      · exact h
  · rw [apply_new hkey]
    show fid ∈ (rs.fids.emplace u.key.id).1.toList ↔ _
    rw [OrdSet.mem_emplace, hids]

theorem ofFlow_snoc (us : List RxUpdate) (u : RxUpdate) (k : FlowKey) :
    ofFlow (us ++ [u]) k = if u.key = k then ofFlow us k ++ [u] else ofFlow us k := by
  unfold ofFlow
  rw [List.filter_append]
  split_ifs with h
  · simp [h]
  · simp [h]

theorem statsOf_snoc (us : List RxUpdate) (u : RxUpdate) :
    statsOf (us ++ [u]) =
      some (((statsOf us).map (·.add u.udpBytes)).getD (FlowStats.mk' u.udpBytes)) := by
  unfold statsOf
  rw [if_neg (by simp)]
  split_ifs with hnil
  · rw [hnil]
    simp [FlowStats.mk', withHeaders_eq]
  · simp only [Option.map_some, Option.getD_some, FlowStats.add, withHeaders_eq,
      List.length_append, List.length_singleton, List.map_append, List.map_singleton,
      List.sum_append, List.sum_singleton, BitVec.ofNat_add]
    rfl

theorem counts_apply {us : List RxUpdate} {rs : RxStats} (h : Counts us rs) (u : RxUpdate) :
    Counts (us ++ [u]) (rs.apply u) := by
  have hkeys : ∀ fid, fid ∈ (rs.apply u).fsMap.keys ↔ fid = u.key.id ∨ fid ∈ rs.fsMap.keys := by
    intro fid
    rw [UnorderedMap.mem_keys, UnorderedMap.mem_keys, apply_find]
    split_ifs with heq
    · exact iff_of_true ⟨_, rfl⟩ (Or.inl heq)
    · rw [or_iff_right heq]
  refine ⟨?_, ?_, ?_⟩
  · intro k
    rw [apply_find, ofFlow_snoc]
    split_ifs with hid hkey hkey
    · rw [h.find, hkey, statsOf_snoc]
    · exact absurd (FlowKey.id_injective hid).symm hkey
    · exact absurd (congrArg FlowKey.id hkey).symm hid
    · exact h.find k
  · intro fid
    rw [apply_ids u h.ids, hkeys]
  · intro fid
    rw [hkeys, h.keys]
    simp only [List.mem_append, List.mem_singleton]
    apply Iff.intro
    · intro hfid
      rcases hfid with rfl | ⟨u', hu', heq⟩
      · exact ⟨u, Or.inr rfl, rfl⟩
      · exact ⟨u', Or.inl hu', heq⟩
    · intro hfid
      obtain ⟨u', hu' | rfl, heq⟩ := hfid
      · exact Or.inr ⟨u', hu', heq⟩
      · exact Or.inl heq.symm

theorem counts_run (us : List RxUpdate) : Counts us (run us) := by
  induction us using List.reverseRecOn with
  | nil => exact counts_empty
  | append_singleton us u ih =>
    have hrun : run (us ++ [u]) = (run us).apply u := by
      unfold run
      rw [List.foldl_append]
      rfl
    rw [hrun]
    exact counts_apply ih u

/-! ### What `forEach` visits -/

/-- The visit of a flow with its totals. -/
def visit (us : List RxUpdate) (k : FlowKey) : FlowVisit :=
  ⟨k.source, k.sport, k.dport, statsOf (ofFlow us k)⟩

theorem mem_ofFlow {us : List RxUpdate} {k : FlowKey} (h : ∃ u ∈ us, u.key = k) :
    ofFlow us k ≠ [] := by
  obtain ⟨u, hu, hk⟩ := h
  exact List.ne_nil_of_mem (List.mem_filter.mpr ⟨hu, decide_eq_true hk⟩)

theorem length_le_bytesOf (us : List RxUpdate) (k : FlowKey) :
    (ofFlow us k).length ≤ bytesOf us k := by
  unfold bytesOf
  induction ofFlow us k with
  | nil => exact Nat.zero_le _
  | cons u l ih =>
    rw [List.map_cons, List.sum_cons, List.length_cons]
    omega

theorem statsOf_toNat {us : List RxUpdate} {k : FlowKey} (hmem : ∃ u ∈ us, u.key = k)
    (hbytes : bytesOf us k < 2 ^ 64) :
    ∃ fs, statsOf (ofFlow us k) = some fs ∧ fs.pkts.toNat = (ofFlow us k).length ∧
      fs.bytes.toNat = bytesOf us k := by
  have hpkts := length_le_bytesOf us k
  refine ⟨_, if_neg (mem_ofFlow hmem), ?_, ?_⟩
  · exact Nat.mod_eq_of_lt (by omega)
  · exact Nat.mod_eq_of_lt hbytes

theorem run_size (us : List RxUpdate) : (run us).size = (run us).fids.toList.length := by
  have hcounts := counts_run us
  have hperm : ((run us).fsMap.keys).Perm (run us).fids.toList := by
    apply (List.perm_ext_iff_of_nodup (run us).fsMap.nodup (run us).fids.sorted.nodup).mpr
    exact fun fid => (hcounts.ids fid).symm
  have hlen := hperm.length_eq
  unfold UnorderedMap.keys at hlen
  rw [List.length_map] at hlen
  exact hlen

/-- The flows in the order of `forEach`. -/
def flows (us : List RxUpdate) : List FlowKey := (run us).fids.toList.map FlowKey.ofId

theorem mem_fids (us : List RxUpdate) (fid : FlowId) :
    fid ∈ (run us).fids.toList ↔ ∃ u ∈ us, u.key.id = fid := by
  have hcounts := counts_run us
  rw [hcounts.ids, hcounts.keys]

theorem id_ofId {us : List RxUpdate} {fid : FlowId} (h : fid ∈ (run us).fids.toList) :
    (FlowKey.ofId fid).id = fid := by
  obtain ⟨u, _, rfl⟩ := (mem_fids us fid).mp h
  rw [FlowKey.ofId_id]

theorem mem_flows (us : List RxUpdate) (k : FlowKey) : k ∈ flows us ↔ ∃ u ∈ us, u.key = k := by
  unfold flows
  rw [List.mem_map]
  apply Iff.intro
  · intro h
    obtain ⟨fid, hfid, rfl⟩ := h
    obtain ⟨u, hu, rfl⟩ := (mem_fids us fid).mp hfid
    exact ⟨u, hu, (FlowKey.ofId_id u.key).symm⟩
  · intro h
    obtain ⟨u, hu, rfl⟩ := h
    exact ⟨u.key.id, (mem_fids us _).mpr ⟨u, hu, rfl⟩, FlowKey.ofId_id u.key⟩

theorem flows_before (us : List RxUpdate) : (flows us).Pairwise FlowKey.Before := by
  unfold flows
  rw [List.pairwise_map]
  apply (List.sortedLT_iff_pairwise.mp (run us).fids.sorted).imp_of_mem
  intro a b ha hb hlt
  apply FlowKey.before_of_id_lt
  rw [id_ofId ha, id_ofId hb]
  exact BitVec.lt_def.mp hlt

theorem flows_nodup (us : List RxUpdate) : (flows us).Nodup := by
  apply List.Nodup.map_on _ (run us).fids.sorted.nodup
  intro a ha b hb heq
  rw [← id_ofId ha, ← id_ofId hb, heq]

theorem forEach_flows (us : List RxUpdate) : (run us).forEach = (flows us).map (visit us) := by
  unfold forEach flows
  rw [List.map_map]
  apply List.map_congr_left
  intro fid hfid
  have hfind := (counts_run us).find (FlowKey.ofId fid)
  rw [id_ofId hfid] at hfind
  rw [hfind]
  rfl

/-- `keys` are the flows of the run, each of them once, in the order of `forEach`. -/
theorem run_exact (us : List RxUpdate) (htotals : ∀ k, bytesOf us k < 2 ^ 64) :
    (∀ k : FlowKey, flowSource k.id = k.source ∧ flowSPort k.id = k.sport ∧
      flowDPort k.id = k.dport) ∧
    ∃ keys : List FlowKey, keys.Pairwise FlowKey.Before ∧ keys.Nodup ∧
      (∀ k, k ∈ keys ↔ ∃ u ∈ us, u.key = k) ∧
      (run us).forEach = keys.map (visit us) ∧
      (∀ k ∈ keys, ∃ fs, (visit us k).fs = some fs ∧ fs.pkts.toNat = (ofFlow us k).length ∧
        fs.bytes.toNat = bytesOf us k) ∧
      (run us).size = keys.length := by
  refine ⟨?_, flows us, flows_before us, flows_nodup us, mem_flows us, forEach_flows us, ?_, ?_⟩
  · intro k
    exact ⟨flowSource_flowId _ _ _, flowSPort_flowId _ _ _, flowDPort_flowId _ _ _⟩
  · intro k hk
    exact statsOf_toNat ((mem_flows us k).mp hk) (htotals k)
  · rw [run_size]
    exact (List.length_map FlowKey.ofId).symm

/-- Three flows whose datagrams come in turns. -/
def sampleRxUpdates : List RxUpdate :=
  [⟨⟨.ofOctets 10 0 0 1, 5000, 6000⟩, 100⟩, ⟨⟨.ofOctets 10 0 0 2, 5000, 6000⟩, 1400⟩,
    ⟨⟨.ofOctets 10 0 0 1, 5000, 6000⟩, 50⟩, ⟨⟨.ofOctets 10 0 0 1, 5001, 6000⟩, 0⟩,
    ⟨⟨.ofOctets 10 0 0 2, 5000, 6000⟩, 1400⟩, ⟨⟨.ofOctets 10 0 0 1, 5000, 6000⟩, 100⟩]

theorem run_exact_example :
    ∃ keys : List FlowKey, keys.Pairwise FlowKey.Before ∧ keys.Nodup ∧
      (∀ k, k ∈ keys ↔ ∃ u ∈ sampleRxUpdates, u.key = k) ∧
      (run sampleRxUpdates).forEach = keys.map (visit sampleRxUpdates) ∧
      (∀ k ∈ keys, ∃ fs, (visit sampleRxUpdates k).fs = some fs ∧
        fs.pkts.toNat = (ofFlow sampleRxUpdates k).length ∧
        fs.bytes.toNat = bytesOf sampleRxUpdates k) ∧
      (run sampleRxUpdates).size = keys.length := by
  have htotals : ∀ k, bytesOf sampleRxUpdates k < 2 ^ 64 := by
    intro k
    have hsub : (ofFlow sampleRxUpdates k).Sublist sampleRxUpdates := List.filter_sublist
    have hle := (hsub.map fun u => 44 + u.udpBytes.toNat).sum_le_sum fun _ _ => Nat.zero_le _
    exact lt_of_le_of_lt hle (by decide)
  exact (run_exact sampleRxUpdates htotals).2

end RxStats

end Pimc.Mclst
