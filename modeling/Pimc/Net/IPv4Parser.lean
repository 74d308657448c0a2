import Mathlib.Tactic.Linarith
import Pimc.Net.IPv4Address

/-!
# The address parser (lib/pimc/parsers/IPv4Parsers.hpp)

An iterator is the input from its position on, and two iterators are equal when
the inputs from there on are.
-/

namespace Pimc

/-! ### The parser -/

def digitStep (oct : ℕ) (c : Char) : ℕ := oct * 10 + (c.toNat - '0'.toNat)

def parseBoundedUIntLoop (maxVal : ℕ) (first : List Char) : ℕ → Bool → List Char → ℕ × List Char
  | oct, haveDigs, c :: ii =>
    if c.isDigit then
      if digitStep oct c > maxVal then (0, first)
      else parseBoundedUIntLoop maxVal first (digitStep oct c) true ii
    else if !haveDigs then (0, first) else (oct, c :: ii)
  | oct, haveDigs, [] => if !haveDigs then (0, first) else (oct, [])

def parseBoundedUInt (maxVal : ℕ) (first : List Char) : ℕ × List Char :=
  parseBoundedUIntLoop maxVal first 0 false first

def parseIPv4AddressImpl (first : List Char) : ℕ × List Char :=
  let (o1, is) := parseBoundedUInt 255 first
  if is = first then (0, first) else
  match is with
  | '.' :: ii2 =>
    let (o2, is) := parseBoundedUInt 255 ii2
    if is = ii2 then (0, first) else
    match is with
    | '.' :: ii3 =>
      let (o3, is) := parseBoundedUInt 255 ii3
      if is = ii3 then (0, first) else
      match is with
      | '.' :: ii4 =>
        let (o4, is) := parseBoundedUInt 255 ii4
        if is = ii4 then (0, first) else
        (o1 * 2 ^ 24 + o2 * 2 ^ 16 + o3 * 2 ^ 8 + o4, is)
      | _ => (0, first)
    | _ => (0, first)
  | _ => (0, first)

def parseIPv4AddressIt (first : List Char) : Option IPv4Address :=
  let (addr, is) := parseIPv4AddressImpl first
  if is ≠ [] then none else some ⟨BitVec.ofNat 32 addr⟩

def parseIPv4Address (s : String) : Option IPv4Address := parseIPv4AddressIt s.toList

/-! ### Dotted decimal notation -/

def decimal (ds : List Char) : ℕ := ds.foldl digitStep 0

theorem decimal_eq_ofDigitChars (ds : List Char) : decimal ds = Nat.ofDigitChars 10 ds 0 := by
  unfold decimal digitStep
  rw [Nat.ofDigitChars_eq_foldl]
  simp only [Nat.mul_comm]

theorem decimal_toDigits (n : ℕ) : decimal (Nat.toDigits 10 n) = n := by
  rw [decimal_eq_ofDigitChars, Nat.ofDigitChars_ten_toDigits]

/-- `ds` is a decimal number with the value `n` of an octet. -/
structure Octet (ds : List Char) (n : ℕ) : Prop where
  digits : ∀ c ∈ ds, c.isDigit = true
  nonempty : ds ≠ []
  value : decimal ds = n
  bound : n ≤ 255

/-- `cs` is four octets with dots between them. -/
def DottedDecimal (cs : List Char) (a : IPv4Address) : Prop :=
  ∃ d1 d2 d3 d4 n1 n2 n3 n4, Octet d1 n1 ∧ Octet d2 n2 ∧ Octet d3 n3 ∧ Octet d4 n4 ∧
    cs = d1 ++ '.' :: (d2 ++ '.' :: (d3 ++ '.' :: d4)) ∧
    a = ⟨BitVec.ofNat 32 (n1 * 2 ^ 24 + n2 * 2 ^ 16 + n3 * 2 ^ 8 + n4)⟩

def Dotted (s : String) (a : IPv4Address) : Prop := DottedDecimal s.toList a

/-! ### One number -/

theorem digit_le {c : Char} (h : c.isDigit = true) : c.toNat - '0'.toNat ≤ 9 := by
  have hle : c.toNat ≤ 57 := by
    simp only [Char.isDigit, Bool.and_eq_true, decide_eq_true_eq] at h
    exact h.2
  have hzero : '0'.toNat = 48 := rfl
  omega

theorem foldl_digitStep_ge (ds : List Char) (oct : ℕ) : oct ≤ ds.foldl digitStep oct := by
  induction ds generalizing oct with
  | nil => exact Nat.le_refl oct
  | cons c ds ih =>
    have hstep : oct ≤ digitStep oct c := by
      unfold digitStep
      omega
    exact Nat.le_trans hstep (ih _)

theorem parseLoop_digits {maxVal : ℕ} (first : List Char) {ds rest : List Char}
    (hds : ∀ c ∈ ds, c.isDigit = true) (hrest : ∀ c ∈ rest.head?, c.isDigit = false)
    (oct : ℕ) (have_ : Bool) (hne : have_ = true ∨ ds ≠ [])
    (hle : ds.foldl digitStep oct ≤ maxVal) :
    parseBoundedUIntLoop maxVal first oct have_ (ds ++ rest) = (ds.foldl digitStep oct, rest) := by
  induction ds generalizing oct have_ with
  | nil =>
    have htrue : have_ = true := by
      rcases hne with h | h
      · exact h
      · exact absurd rfl h
    cases rest with
    | nil => simp [parseBoundedUIntLoop, htrue]
    | cons c rest => simp [parseBoundedUIntLoop, hrest c rfl, htrue]
  | cons d ds ih =>
    have hd := hds d List.mem_cons_self
    have hstep : ¬ digitStep oct d > maxVal := by
      have hge := foldl_digitStep_ge ds (digitStep oct d)
      rw [List.foldl_cons] at hle
      omega
    rw [List.cons_append, parseBoundedUIntLoop, if_pos hd, if_neg hstep, List.foldl_cons]
    exact ih (fun c hc => hds c (List.mem_cons_of_mem d hc)) _ true (Or.inl rfl) hle

theorem parseLoop_cases (maxVal : ℕ) (first : List Char) (oct : ℕ) (have_ : Bool)
    (cs : List Char) :
    parseBoundedUIntLoop maxVal first oct have_ cs = (0, first) ∨
    ∃ ds rest, cs = ds ++ rest ∧ (∀ c ∈ ds, c.isDigit = true) ∧ (have_ = true ∨ ds ≠ []) ∧
      (oct ≤ maxVal → ds.foldl digitStep oct ≤ maxVal) ∧
      parseBoundedUIntLoop maxVal first oct have_ cs = (ds.foldl digitStep oct, rest) := by
  induction cs generalizing oct have_ with
  | nil =>
    cases have_ with
    | false => exact Or.inl rfl
    | true => exact Or.inr ⟨[], [], rfl, by simp, Or.inl rfl, fun h => h, rfl⟩
  | cons c cs ih =>
    rw [parseBoundedUIntLoop]
    split_ifs with hc hover hdigs
    · exact Or.inl rfl
    · rcases ih (digitStep oct c) true with hfail | ⟨ds, rest, hcs, hds, _, hle, heq⟩
      · exact Or.inl hfail
      · refine Or.inr ⟨c :: ds, rest, by rw [hcs]; rfl, ?_, Or.inr (List.cons_ne_nil c ds), ?_, heq⟩
        · intro d hd
          rcases List.mem_cons.mp hd with rfl | hd
          · exact hc
          · exact hds d hd
        · intro _
          exact hle (Nat.le_of_not_lt hover)
    · exact Or.inl rfl
    · refine Or.inr ⟨[], c :: cs, rfl, by simp, Or.inl ?_, fun h => h, rfl⟩
      simpa using hdigs

theorem parseBoundedUInt_digits {maxVal : ℕ} {ds rest : List Char}
    (hds : ∀ c ∈ ds, c.isDigit = true) (hne : ds ≠ []) (hle : decimal ds ≤ maxVal)
    (hrest : ∀ c ∈ rest.head?, c.isDigit = false) :
    parseBoundedUInt maxVal (ds ++ rest) = (decimal ds, rest) :=
  parseLoop_digits _ hds hrest 0 false (Or.inr hne) hle

theorem parseBoundedUInt_octet {ds rest : List Char} {n : ℕ} (h : Octet ds n)
    (hrest : ∀ c ∈ rest.head?, c.isDigit = false) :
    parseBoundedUInt 255 (ds ++ rest) = (n, rest) := by
  have hle : decimal ds ≤ 255 := by
    rw [h.value]
    exact h.bound
  rw [parseBoundedUInt_digits h.digits h.nonempty hle hrest, h.value]

theorem parseBoundedUInt_moved {maxVal : ℕ} {first : List Char}
    (h : (parseBoundedUInt maxVal first).2 ≠ first) :
    ∃ ds, first = ds ++ (parseBoundedUInt maxVal first).2 ∧ (∀ c ∈ ds, c.isDigit = true) ∧
      ds ≠ [] ∧ decimal ds = (parseBoundedUInt maxVal first).1 ∧ decimal ds ≤ maxVal := by
  unfold parseBoundedUInt at h ⊢
  rcases parseLoop_cases maxVal first 0 false first with hfail | ⟨ds, rest, hcs, hds, hne, hle, heq⟩
  · rw [hfail] at h
    exact absurd rfl h
  · rw [heq]
    refine ⟨ds, hcs, hds, ?_, rfl, hle (Nat.zero_le _)⟩
    rcases hne with hne | hne
    · cases hne
    · exact hne

theorem parseBoundedUInt_some {first : List Char} (h : (parseBoundedUInt 255 first).2 ≠ first) :
    ∃ ds, first = ds ++ (parseBoundedUInt 255 first).2 ∧
      Octet ds (parseBoundedUInt 255 first).1 := by
  obtain ⟨ds, hcs, hds, hne, hvalue, hle⟩ := parseBoundedUInt_moved h
  rw [← hvalue]
  exact ⟨ds, hcs, hds, hne, rfl, hle⟩

/-! ### The whole address -/

theorem octet_ne_rest {ds rest : List Char} {n : ℕ} (h : Octet ds n) : rest ≠ ds ++ rest := by
  intro heq
  have hlen := congrArg List.length heq
  have hpos := List.length_pos_iff.mpr h.nonempty
  rw [List.length_append] at hlen
  omega

theorem parseIPv4AddressImpl_dotted {d1 d2 d3 d4 rest : List Char} {n1 n2 n3 n4 : ℕ}
    (h1 : Octet d1 n1) (h2 : Octet d2 n2) (h3 : Octet d3 n3) (h4 : Octet d4 n4)
    (hrest : ∀ c ∈ rest.head?, c.isDigit = false) :
    parseIPv4AddressImpl (d1 ++ '.' :: (d2 ++ '.' :: (d3 ++ '.' :: (d4 ++ rest)))) =
      (n1 * 2 ^ 24 + n2 * 2 ^ 16 + n3 * 2 ^ 8 + n4, rest) := by
  have hdot : ∀ cs : List Char, ∀ c ∈ ('.' :: cs).head?, c.isDigit = false := by
    intro cs c hc
    cases hc
    decide
  simp only [parseIPv4AddressImpl, parseBoundedUInt_octet h1 (hdot _),
    parseBoundedUInt_octet h2 (hdot _), parseBoundedUInt_octet h3 (hdot _),
    parseBoundedUInt_octet h4 hrest, if_neg (octet_ne_rest h1), if_neg (octet_ne_rest h2),
    if_neg (octet_ne_rest h3), if_neg (octet_ne_rest h4)]

theorem parseIPv4AddressImpl_cases (first : List Char) :
    (parseIPv4AddressImpl first = (0, first)) ∨
    ∃ d1 d2 d3 d4 n1 n2 n3 n4 rest, Octet d1 n1 ∧ Octet d2 n2 ∧ Octet d3 n3 ∧ Octet d4 n4 ∧
      first = d1 ++ '.' :: (d2 ++ '.' :: (d3 ++ '.' :: (d4 ++ rest))) ∧
      parseIPv4AddressImpl first = (n1 * 2 ^ 24 + n2 * 2 ^ 16 + n3 * 2 ^ 8 + n4, rest) := by
  have hstage : ∀ cs n is, parseBoundedUInt 255 cs = (n, is) → is ≠ cs →
      ∃ ds, cs = ds ++ is ∧ Octet ds n := by
    intro cs n is hparse hne
    have hmoved : (parseBoundedUInt 255 cs).2 ≠ cs := by
      rw [hparse]
      exact hne
    have hsome := parseBoundedUInt_some hmoved
    rwa [hparse] at hsome
  unfold parseIPv4AddressImpl
  rcases hp1 : parseBoundedUInt 255 first with ⟨n1, is1⟩
  by_cases hne1 : is1 = first
  · simp [hne1]
  obtain ⟨d1, hcs1, h1⟩ := hstage _ _ _ hp1 hne1
  simp only [if_neg hne1]
  split
  case h_2 => exact Or.inl rfl
  rename_i ii2
  rcases hp2 : parseBoundedUInt 255 ii2 with ⟨n2, is2⟩
  by_cases hne2 : is2 = ii2
  · simp [hne2]
  obtain ⟨d2, hcs2, h2⟩ := hstage _ _ _ hp2 hne2
  simp only [if_neg hne2]
  split
  case h_2 => exact Or.inl rfl
  rename_i ii3
  rcases hp3 : parseBoundedUInt 255 ii3 with ⟨n3, is3⟩
  by_cases hne3 : is3 = ii3
  · simp [hne3]
  obtain ⟨d3, hcs3, h3⟩ := hstage _ _ _ hp3 hne3
  simp only [if_neg hne3]
  split
  case h_2 => exact Or.inl rfl
  rename_i ii4
  rcases hp4 : parseBoundedUInt 255 ii4 with ⟨n4, is4⟩
  by_cases hne4 : is4 = ii4
  · simp [hne4]
  obtain ⟨d4, hcs4, h4⟩ := hstage _ _ _ hp4 hne4
  simp only [if_neg hne4]
  right
  refine ⟨d1, d2, d3, d4, n1, n2, n3, n4, is4, h1, h2, h3, h4, ?_, rfl⟩
  rw [← hcs4, ← hcs3, ← hcs2, ← hcs1]

/-- The empty input is taken for the default address. -/
theorem parseIPv4AddressIt_iff (cs : List Char) (a : IPv4Address) :
    parseIPv4AddressIt cs = some a ↔ DottedDecimal cs a ∨ (cs = [] ∧ a = ⟨0⟩) := by
  unfold parseIPv4AddressIt
  constructor
  · intro h
    rcases parseIPv4AddressImpl_cases cs with
      hfail | ⟨d1, d2, d3, d4, n1, n2, n3, n4, rest, h1, h2, h3, h4, hs, hvalue⟩
    · rw [hfail] at h
      by_cases hempty : cs = []
      · simp only [hempty, ne_eq, not_true_eq_false, if_false, Option.some.injEq] at h
        exact Or.inr ⟨hempty, h.symm⟩
      · simp [hempty] at h
    · rw [hvalue] at h
      by_cases hrest : rest = []
      · simp only [hrest, ne_eq, not_true_eq_false, if_false, Option.some.injEq] at h
        rw [hrest, List.append_nil] at hs
        exact Or.inl ⟨d1, d2, d3, d4, n1, n2, n3, n4, h1, h2, h3, h4, hs, h.symm⟩
      · simp [hrest] at h
  · intro h'
    rcases h' with ⟨d1, d2, d3, d4, n1, n2, n3, n4, h1, h2, h3, h4, rfl, rfl⟩ | ⟨rfl, rfl⟩
    · have hend : ∀ c ∈ ([] : List Char).head?, c.isDigit = false := by simp
      have hparse := parseIPv4AddressImpl_dotted h1 h2 h3 h4 hend
      rw [List.append_nil] at hparse
      rw [hparse]
      rfl
    · rfl

theorem parseIPv4Address_iff (s : String) (a : IPv4Address) :
    parseIPv4Address s = some a ↔ Dotted s a ∨ (s = "" ∧ a = ⟨0⟩) := by
  rw [← String.toList_eq_nil_iff]
  exact parseIPv4AddressIt_iff s.toList a

end Pimc
