import Pimc.Net.IPv4Parser
import Pimc.Net.IPv4Prefix

/-!
# Addresses and prefixes as text (lib/pimc/parsers/IPv4Parsers.hpp)

Each parser comes for a pair of iterators, for a character range and for a
string that ends in a NUL character.
-/

namespace Pimc

/-- A string in memory with a NUL character to stop at. -/
structure CString where
  mem : List Char
  terminated : Char.ofNat 0 ∈ mem

/-- The characters before `cssentinel`. -/
def CString.chars (s : CString) : List Char := s.mem.takeWhile (· ≠ Char.ofNat 0)

def parseIPv4AddressCStr (s : CString) : Option IPv4Address := parseIPv4AddressIt s.chars

def parseIPv4PrefixLengthImpl (first : List Char) : ℕ × List Char :=
  match first with
  | [] => (0, first)
  | c :: ii =>
    if c ≠ '/' then (0, first)
    else
      let (plen, is) := parseBoundedUInt 32 ii
      if is = ii then (0, first) else (plen, is)

/-- The error is an exception of `IPv4Prefix::make`. -/
def parseIPv4PrefixIt (first : List Char) : Except String (Option IPv4Prefix) :=
  let (addr, is) := parseIPv4AddressImpl first
  if is = first ∨ is = [] then .ok none
  else
    let ii := is
    let (plen, is) := parseIPv4PrefixLengthImpl ii
    if is = ii ∨ is ≠ [] then .ok none
    else (IPv4Prefix.make ⟨BitVec.ofNat 32 addr⟩ plen).map some

def parseIPv4Prefix (s : String) : Except String (Option IPv4Prefix) := parseIPv4PrefixIt s.toList

def parseIPv4PrefixCStr (s : CString) : Except String (Option IPv4Prefix) :=
  parseIPv4PrefixIt s.chars

/-! ### Addresses -/

theorem not_dottedDecimal_nil (a : IPv4Address) : ¬ DottedDecimal [] a := by
  intro h
  obtain ⟨d1, d2, d3, d4, n1, n2, n3, n4, _, _, _, _, hs, _⟩ := h
  have hlen := congrArg List.length hs
  simp at hlen

theorem parseIPv4AddressIt_exact_iff (cs : List Char) :
    (∀ a, parseIPv4AddressIt cs = some a ↔ DottedDecimal cs a) ↔ cs ≠ [] := by
  refine ⟨?_, ?_⟩
  · intro h h'
    subst h'
    exact not_dottedDecimal_nil ⟨0⟩ ((h ⟨0⟩).mp rfl)
  · intro hne a
    rw [parseIPv4AddressIt_iff]
    exact or_iff_left fun h => hne h.1

/-- The address parsers are exact on every input that is not empty, and on no other. -/
theorem parseIPv4Address_exact_iff (cs : List Char) (s : String) (t : CString) :
    ((∀ a, parseIPv4AddressIt cs = some a ↔ DottedDecimal cs a) ↔ cs ≠ []) ∧
    ((∀ a, parseIPv4Address s = some a ↔ DottedDecimal s.toList a) ↔ s ≠ "") ∧
    ((∀ a, parseIPv4AddressCStr t = some a ↔ DottedDecimal t.chars a) ↔ t.chars ≠ []) := by
  refine ⟨parseIPv4AddressIt_exact_iff cs, ?_, parseIPv4AddressIt_exact_iff t.chars⟩
  have hempty : s = "" ↔ s.toList = [] := String.toList_eq_nil_iff.symm
  rw [Ne, hempty]
  exact parseIPv4AddressIt_exact_iff s.toList

theorem parseIPv4Address_accepts_empty :
    parseIPv4Address "" = some (.ofOctets 0 0 0 0) ∧ ∀ a, ¬ DottedDecimal "".toList a :=
  ⟨rfl, not_dottedDecimal_nil⟩

/-! ### Prefixes -/

/-- `cs` is an address in dotted decimal notation, a slash and a length. -/
def DottedPrefix (cs : List Char) (a : IPv4Address) (n : ℕ) : Prop :=
  ∃ host len, cs = host ++ '/' :: len ∧ DottedDecimal host a ∧
    (∀ c ∈ len, c.isDigit = true) ∧ len ≠ [] ∧ decimal len = n ∧ n ≤ 32

theorem parseIPv4PrefixLengthImpl_cases (first : List Char) :
    parseIPv4PrefixLengthImpl first = (0, first) ∨
    ∃ len rest, first = '/' :: (len ++ rest) ∧ (∀ c ∈ len, c.isDigit = true) ∧ len ≠ [] ∧
      decimal len ≤ 32 ∧ parseIPv4PrefixLengthImpl first = (decimal len, rest) := by
  unfold parseIPv4PrefixLengthImpl
  cases first with
  | nil => exact Or.inl rfl
  | cons c ii =>
    by_cases hc : c = '/'
    · rcases hp : parseBoundedUInt 32 ii with ⟨plen, is⟩
      by_cases hne : is = ii
      · simp [hc, hp, hne]
      · right
        have hmoved : (parseBoundedUInt 32 ii).2 ≠ ii := by
          rw [hp]
          exact hne
        obtain ⟨len, hii, hdigits, hlen, hvalue, hle⟩ := parseBoundedUInt_moved hmoved
        rw [hp] at hii hvalue
        refine ⟨len, is, ?_, hdigits, hlen, hle, ?_⟩
        · rw [hc, ← hii]
        · simp only [hc, hp, ne_eq, not_true_eq_false, if_false, if_neg hne, hvalue]
    · simp [hc]

theorem parseIPv4PrefixLengthImpl_digits {len : List Char} (hdigits : ∀ c ∈ len, c.isDigit = true)
    (hne : len ≠ []) (hle : decimal len ≤ 32) :
    parseIPv4PrefixLengthImpl ('/' :: len) = (decimal len, []) := by
  have hend : ∀ c ∈ ([] : List Char).head?, c.isDigit = false := by simp
  have hparse := parseBoundedUInt_digits hdigits hne hle hend
  rw [List.append_nil] at hparse
  simp only [parseIPv4PrefixLengthImpl, hparse, ne_eq, not_true_eq_false, if_false]
  rw [if_neg (Ne.symm hne)]

theorem parseIPv4PrefixIt_dotted {cs : List Char} {a : IPv4Address} {n : ℕ}
    (h : DottedPrefix cs a n) : ∃ p, parseIPv4PrefixIt cs = .ok (some p) ∧
      p.addr = a.land ⟨IPv4Address.maskValue n⟩ ∧ p.plen = n := by
  obtain ⟨host, len, hcs, hhost, hdigits, hlen, rfl, hle⟩ := h
  obtain ⟨d1, d2, d3, d4, n1, n2, n3, n4, h1, h2, h3, h4, rfl, rfl⟩ := hhost
  obtain ⟨p, hmake, haddr, hplen⟩ := IPv4Prefix.make_ok
    ⟨BitVec.ofNat 32 (n1 * 2 ^ 24 + n2 * 2 ^ 16 + n3 * 2 ^ 8 + n4)⟩ hle
  refine ⟨p, ?_, haddr, hplen⟩
  have hslash : ∀ c ∈ ('/' :: len).head?, c.isDigit = false := by
    intro c hc
    cases hc
    decide
  have hsplit : cs = d1 ++ '.' :: (d2 ++ '.' :: (d3 ++ '.' :: (d4 ++ '/' :: len))) := by
    rw [hcs]
    simp
  have hmoved : '/' :: len ≠ cs := by
    intro heq
    have hlength := congrArg List.length heq
    rw [hsplit] at hlength
    simp only [List.length_append, List.length_cons] at hlength
    omega
  have hrest : ¬ (([] : List Char) = '/' :: len ∨ ([] : List Char) ≠ []) := by simp
  unfold parseIPv4PrefixIt
  rw [hsplit] at hmoved ⊢
  simp only [parseIPv4AddressImpl_dotted h1 h2 h3 h4 hslash, List.cons_ne_nil, or_false,
    if_neg hmoved, parseIPv4PrefixLengthImpl_digits hdigits hlen hle, if_neg hrest, hmake]
  rfl

theorem parseIPv4PrefixIt_none {cs : List Char} (h : ∀ a n, ¬ DottedPrefix cs a n) :
    parseIPv4PrefixIt cs = .ok none := by
  unfold parseIPv4PrefixIt
  rcases parseIPv4AddressImpl_cases cs with
    hfail | ⟨d1, d2, d3, d4, n1, n2, n3, n4, is, h1, h2, h3, h4, hs, hvalue⟩
  · simp [hfail]
  · simp only [hvalue]
    by_cases hstop : is = cs ∨ is = []
    · rw [if_pos hstop]
    · rw [if_neg hstop]
      rcases parseIPv4PrefixLengthImpl_cases is with
        hfail | ⟨len, rest, his, hdigits, hlen, hle, hparse⟩
      · rw [hfail, if_pos (Or.inl rfl)]
      · have hrest : rest ≠ [] := by
          intro h'
          subst h'
          rw [List.append_nil] at his
          refine h _ _ ⟨d1 ++ '.' :: (d2 ++ '.' :: (d3 ++ '.' :: d4)), len, ?_,
            ⟨d1, d2, d3, d4, n1, n2, n3, n4, h1, h2, h3, h4, rfl, rfl⟩, hdigits, hlen, rfl, hle⟩
          rw [hs, his]
          simp
        rw [hparse, if_pos (Or.inr hrest)]

/-- `r` is the canonical prefix that `cs` denotes, or none if it denotes none; it is never an
exception. -/
structure ReadsPrefix (r : Except String (Option IPv4Prefix)) (cs : List Char) : Prop where
  returns : ∀ e, r ≠ .error e
  accepts : ∀ p, r = .ok (some p) ↔ ∃ a n, DottedPrefix cs a n ∧ p.plen = n ∧
    ∀ i < 32, p.addr.addr.getMsbD i = (decide (i < n) && a.addr.getMsbD i)

theorem parseIPv4PrefixIt_reads (cs : List Char) : ReadsPrefix (parseIPv4PrefixIt cs) cs := by
  by_cases hdoc : ∃ a n, DottedPrefix cs a n
  · obtain ⟨a, n, hprefix⟩ := hdoc
    obtain ⟨q, hq, haddr, hplen⟩ := parseIPv4PrefixIt_dotted hprefix
    refine ⟨?_, ?_⟩
    · intro e he
      rw [hq] at he
      cases he
    · intro p
      refine ⟨?_, ?_⟩
      · intro hp
        rw [hq] at hp
        cases hp
        refine ⟨a, n, hprefix, hplen, fun i hi => ?_⟩
        rw [haddr, IPv4Address.land_mask_bit a (hplen ▸ q.plen_le) hi]
      · intro h'
        obtain ⟨a', n', hprefix', hlen, hbits⟩ := h'
        obtain ⟨q', hq', haddr', hplen'⟩ := parseIPv4PrefixIt_dotted hprefix'
        rw [hq']
        have hsame : p.addr = q'.addr := by
          ext1
          apply BitVec.eq_of_getMsbD_eq
          intro i hi
          rw [hbits i hi, haddr', IPv4Address.land_mask_bit a' (hplen' ▸ q'.plen_le) hi]
        rw [IPv4Prefix.ext hsame (hlen.trans hplen'.symm)]
  · have hnone := parseIPv4PrefixIt_none fun a n h => hdoc ⟨a, n, h⟩
    refine ⟨?_, ?_⟩
    · intro e he
      rw [hnone] at he
      cases he
    · intro p
      refine ⟨?_, ?_⟩
      · intro hp
        rw [hnone] at hp
        cases hp
      · intro h'
        obtain ⟨a, n, hprefix, _⟩ := h'
        exact absurd ⟨a, n, hprefix⟩ hdoc

/-- The prefix parsers are exact. -/
theorem parseIPv4Prefix_exact :
    (∀ cs : List Char, ReadsPrefix (parseIPv4PrefixIt cs) cs) ∧
    (∀ s : String, ReadsPrefix (parseIPv4Prefix s) s.toList) ∧
    ∀ s : CString, ReadsPrefix (parseIPv4PrefixCStr s) s.chars :=
  ⟨parseIPv4PrefixIt_reads, fun s => parseIPv4PrefixIt_reads s.toList,
    fun s => parseIPv4PrefixIt_reads s.chars⟩

end Pimc
