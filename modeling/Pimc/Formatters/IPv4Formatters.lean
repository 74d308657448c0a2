import Pimc.Net.PrefixContainment
import Pimc.Parsers.IPv4Parsers

/-!
# Text of addresses and prefixes (lib/pimc/formatters/IPv4Formatters.hpp)

`charlen` foretells the length of the text, and the parsers read it back.
-/

namespace Pimc

namespace IPv4Address

/-- `octlen<N>`. -/
def octlen (a : IPv4Address) (n : ℕ) : ℕ :=
  let oct := if n = 1 then a.oct1 else if n = 2 then a.oct2 else if n = 3 then a.oct3
    else if n = 4 then a.oct4 else 0
  if oct < 10 then 1 else if oct < 100 then 2 else 3

def charlen (a : IPv4Address) : ℕ := a.octlen 1 + a.octlen 2 + a.octlen 3 + a.octlen 4 + 3

end IPv4Address

namespace IPv4Prefix

/-- `formatter<IPv4Prefix>`. -/
instance : ToString IPv4Prefix where
  toString p := s!"{p.addr}/{p.plen}"

def charlen (p : IPv4Prefix) : ℕ := p.addr.charlen + 1 + if p.plen < 10 then 1 else 2

end IPv4Prefix

/-! ### One number -/

theorem octet_toDigits (o : BitVec 8) : Octet (Nat.toDigits 10 o.toNat) o.toNat where
  digits := fun _ hc => Nat.isDigit_of_mem_toDigits (by omega) (by omega) hc
  nonempty := Nat.toDigits_ne_nil
  value := decimal_toDigits o.toNat
  bound := Nat.le_of_lt_succ o.isLt

theorem length_toDigits_octet : ∀ v : Fin 256,
    (Nat.toDigits 10 v).length =
      if BitVec.ofNat 8 v < 10 then 1 else if BitVec.ofNat 8 v < 100 then 2 else 3 := by
  decide +kernel

theorem length_toDigits_plen : ∀ v : Fin 33,
    (Nat.toDigits 10 v).length = if (v : ℕ) < 10 then 1 else 2 := by
  decide +kernel

/-! ### Addresses -/

theorem toList_address (a : IPv4Address) : (toString a).toList =
    Nat.toDigits 10 a.oct1.toNat ++ '.' :: (Nat.toDigits 10 a.oct2.toNat ++
      '.' :: (Nat.toDigits 10 a.oct3.toNat ++ '.' :: Nat.toDigits 10 a.oct4.toNat)) := by
  simp [toString, String.toList_append]

theorem octets_toNat (a : IPv4Address) :
    a.oct1.toNat = a.addr.toNat / 2 ^ 24 ∧ a.oct2.toNat = a.addr.toNat / 2 ^ 16 % 2 ^ 8 ∧
      a.oct3.toNat = a.addr.toNat / 2 ^ 8 % 2 ^ 8 ∧ a.oct4.toNat = a.addr.toNat % 2 ^ 8 := by
  have hlt := a.addr.isLt
  have hmask : (0xFF#32).toNat = 2 ^ 8 - 1 := rfl
  simp only [IPv4Address.oct1, IPv4Address.oct2, IPv4Address.oct3, IPv4Address.oct4,
    BitVec.toNat_setWidth, BitVec.toNat_and, BitVec.toNat_ushiftRight, hmask,
    Nat.and_two_pow_sub_one_eq_mod, Nat.shiftRight_eq_div_pow, Nat.mod_mod, and_true]
  omega

theorem dotted_address (a : IPv4Address) : DottedDecimal (toString a).toList a := by
  obtain ⟨h1, h2, h3, h4⟩ := octets_toNat a
  refine ⟨_, _, _, _, _, _, _, _, octet_toDigits a.oct1, octet_toDigits a.oct2,
    octet_toDigits a.oct3, octet_toDigits a.oct4, toList_address a, ?_⟩
  have hvalue : a.oct1.toNat * 2 ^ 24 + a.oct2.toNat * 2 ^ 16 + a.oct3.toNat * 2 ^ 8 +
      a.oct4.toNat = a.addr.toNat := by
    omega
  rw [hvalue, BitVec.ofNat_toNat, BitVec.setWidth_eq]

theorem length_octet (o : BitVec 8) :
    (Nat.toDigits 10 o.toNat).length = if o < 10 then 1 else if o < 100 then 2 else 3 := by
  have hlen := length_toDigits_octet ⟨o.toNat, o.isLt⟩
  rwa [BitVec.ofNat_toNat, BitVec.setWidth_eq] at hlen

theorem length_address (a : IPv4Address) : (toString a).length = a.charlen := by
  have h1 : a.octlen 1 = (Nat.toDigits 10 a.oct1.toNat).length := (length_octet a.oct1).symm
  have h2 : a.octlen 2 = (Nat.toDigits 10 a.oct2.toNat).length := (length_octet a.oct2).symm
  have h3 : a.octlen 3 = (Nat.toDigits 10 a.oct3.toNat).length := (length_octet a.oct3).symm
  have h4 : a.octlen 4 = (Nat.toDigits 10 a.oct4.toNat).length := (length_octet a.oct4).symm
  rw [← String.length_toList, toList_address, IPv4Address.charlen, h1, h2, h3, h4]
  simp only [List.length_append, List.length_cons]
  omega

/-! ### Prefixes -/

theorem toList_slashed (p : IPv4Prefix) : (toString p).toList =
    (toString p.addr).toList ++ '/' :: Nat.toDigits 10 p.plen := by
  have htext : toString p = toString p.addr ++ "/" ++ toString p.plen := rfl
  simp [htext]

theorem dottedPrefix_toString (p : IPv4Prefix) : DottedPrefix (toString p).toList p.addr p.plen :=
  ⟨_, _, toList_slashed p, dotted_address p.addr,
    fun _ hc => Nat.isDigit_of_mem_toDigits (by omega) (by omega) hc, Nat.toDigits_ne_nil,
    decimal_toDigits p.plen, p.plen_le⟩

theorem length_slashed (p : IPv4Prefix) : (toString p).length = p.charlen := by
  have hplen := length_toDigits_plen ⟨p.plen, Nat.lt_succ_of_le p.plen_le⟩
  simp only at hplen
  rw [← String.length_toList, toList_slashed, List.length_append, List.length_cons,
    String.length_toList, length_address, hplen, IPv4Prefix.charlen]
  omega

theorem parse_slashed {cs : List Char} {p : IPv4Prefix} (h : cs = (toString p).toList) :
    parseIPv4PrefixIt cs = .ok (some p) := by
  obtain ⟨q, hparse, haddr, hplen⟩ := parseIPv4PrefixIt_dotted (dottedPrefix_toString p)
  rw [p.canonical] at haddr
  rw [h, hparse, IPv4Prefix.ext haddr hplen]

/-- The parsers read the text of the formatters, and `charlen` is its length. -/
theorem format_parse :
    (∀ a : IPv4Address,
      parseIPv4AddressIt (toString a).toList = some a ∧ parseIPv4Address (toString a) = some a ∧
      (∀ s : CString, s.chars = (toString a).toList → parseIPv4AddressCStr s = some a) ∧
      (toString a).length = a.charlen) ∧
    ∀ (addr : IPv4Address) (plen : ℕ) (p : IPv4Prefix), IPv4Prefix.make addr plen = .ok p →
      parseIPv4PrefixIt (toString p).toList = .ok (some p) ∧
      parseIPv4Prefix (toString p) = .ok (some p) ∧
      (∀ s : CString, s.chars = (toString p).toList → parseIPv4PrefixCStr s = .ok (some p)) ∧
      (toString p).length = p.charlen := by
  refine ⟨fun a => ?_, fun _ _ p _ => ?_⟩
  · have hparse : parseIPv4AddressIt (toString a).toList = some a :=
      (parseIPv4AddressIt_iff _ a).mpr (Or.inl (dotted_address a))
    refine ⟨hparse, hparse, fun s hs => ?_, length_address a⟩
    rw [parseIPv4AddressCStr, hs, hparse]
  · exact ⟨parse_slashed rfl, parse_slashed rfl, fun s hs => parse_slashed hs,
      length_slashed p⟩

theorem format_parse_example :
    parseIPv4AddressCStr ⟨"239.1.20.255".toList ++ [Char.ofNat 0], by simp⟩ =
        some (IPv4Address.ofOctets 239 1 20 255) ∧
      ∃ p, IPv4Prefix.make (IPv4Address.ofOctets 10 1 2 3) 8 = .ok p ∧
        parseIPv4Prefix (toString p) = .ok (some p) ∧ (toString p).length = p.charlen := by
  obtain ⟨haddress, hprefix⟩ := format_parse
  obtain ⟨_, _, hcstr, _⟩ := haddress (IPv4Address.ofOctets 239 1 20 255)
  obtain ⟨p, hmake, _, _⟩ := IPv4Prefix.make_ok (IPv4Address.ofOctets 10 1 2 3)
    (show 8 ≤ 32 by decide)
  obtain ⟨_, hread, _, hlength⟩ := hprefix _ _ p hmake
  exact ⟨hcstr _ (by decide), p, hmake, hread, hlength⟩

end Pimc
