import Pimc.Packets.IPv4PIMPacket

/-!
# The checksum of the PIM packets

A receiver adds the words of the PIM message, checksum field included. The sum
is all ones whatever the addresses of the buffers of the two sides are.
-/

namespace Pimc

open Lib Pimsmv2

/-- A receiver that places the PIM message of `data` anywhere accepts its checksum. -/
def ChecksumAccepted (data : List Byte) : Prop :=
  onesSum (data.drop 20) = 0xFFFF ∧ ∀ addr, ipChecksumNs addr (data.drop 20) = 0

theorem checksummed_accepted (base sz : ℕ) (source : IPv4Address) {b0 b1 : Byte} {back : List Byte}
    (hb0 : b0 ≠ 0) (hlen : back.length < 2 ^ 29) :
    ChecksumAccepted (IPv4HdrWriter.bytes sz source ++ checksummed base b0 b1 back) := by
  have hdrop : (IPv4HdrWriter.bytes sz source ++ checksummed base b0 b1 back).drop 20 =
      checksummed base b0 b1 back :=
    List.drop_left' (IPv4HdrWriter.bytes_length sz source)
  have hdvd : 65535 ∣ weigh true (checksummed base b0 b1 back) := by
    have heven : 2 ∣ [b0, b1].length := ⟨1, rfl⟩
    apply checksum_completes _ heven
    simp only [List.length_append, List.length_cons, List.length_nil]
    omega
  have hpos : weigh true (checksummed base b0 b1 back) ≠ 0 := by
    have hfirst : b0.toNat ≠ 0 := by
      intro h
      exact hb0 (BitVec.eq_of_toNat_eq h)
    simp only [checksummed, List.cons_append, weigh]
    omega
  have hshort : (checksummed base b0 b1 back).length < 2 ^ 32 := by
    simp only [checksummed, image16, List.length_append, List.length_cons, List.length_nil]
    omega
  unfold ChecksumAccepted
  rw [hdrop]
  exact ⟨(onesSum_eq_ones_iff _).mpr ⟨hdvd, hpos⟩,
    fun addr => (ipChecksumNs_eq_zero_iff addr hshort).mpr hdvd⟩

theorem packets_checksum :
    (∀ (base : ℕ) (update : Update IPv4Address) (source neighbor : IPv4Address)
        (holdtime : BitVec 16), update.size ≤ 1466 →
      ∃ data, IPv4PIMUpdatePacket.build base update source neighbor holdtime = .ok data ∧
        ChecksumAccepted data) ∧
    ∀ (base : ℕ) (source : IPv4Address) (helloHoldtime : BitVec 16)
        (drPriority generationId : BitVec 32),
      ∃ data, IPv4PIMHelloPacket.build base source helloHoldtime drPriority generationId =
          .ok data ∧
        ChecksumAccepted data := by
  constructor
  · intro base update source neighbor holdtime hsize
    refine ⟨_, IPv4PIMUpdatePacket.build_eq base update source neighbor holdtime, ?_⟩
    apply checksummed_accepted
    · decide
    · rw [IPv4PIMUpdatePacket.bodyBytes_length]
      omega
  · intro base source helloHoldtime drPriority generationId
    have hlen : (IPv4PIMHelloPacket.bodyBytes helloHoldtime drPriority generationId).length = 22 :=
      rfl
    refine ⟨_, IPv4PIMHelloPacket.build_eq base source helloHoldtime drPriority generationId, ?_⟩
    apply checksummed_accepted
    · decide
    · rw [hlen]
      decide

/-- A shared tree with two pruned sources, and two source trees of another group. -/
def checksummedUpdate : Update IPv4Address where
  groups := [
    { group := .ofOctets 239 1 2 3
      joins := [⟨.ofOctets 10 0 0 1, true, true⟩]
      prunes := [⟨.ofOctets 10 1 2 3, false, true⟩, ⟨.ofOctets 10 1 2 4, false, true⟩] },
    { group := .ofOctets 239 1 2 4
      joins := [⟨.ofOctets 10 1 2 3, false, false⟩]
      prunes := [⟨.ofOctets 10 1 2 5, false, false⟩] }]

theorem packets_checksum_example :
    (∃ data, IPv4PIMUpdatePacket.build 3 checksummedUpdate (.ofOctets 10 2 2 2)
        (.ofOctets 10 2 2 1) 210 = .ok data ∧
      ChecksumAccepted data) ∧
    ∃ data, IPv4PIMHelloPacket.build 3 (.ofOctets 10 2 2 2) 105 1 0x5EED = .ok data ∧
      ChecksumAccepted data := by
  obtain ⟨hupdate, hhello⟩ := packets_checksum
  exact ⟨hupdate 3 checksummedUpdate (.ofOctets 10 2 2 2) (.ofOctets 10 2 2 1) 210 (by decide),
    hhello 3 (.ofOctets 10 2 2 2) 105 1 0x5EED⟩

end Pimc
