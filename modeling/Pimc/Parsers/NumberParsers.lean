import Mathlib.Data.List.Induction
import Mathlib.Tactic.Linarith
import Pimc.Net.IPv4Parser

/-!
# Decimal integers (lib/pimc/parsers/NumberParsers.hpp)

A value of an integer type of `w` bits is a `BitVec w`. Results are converted to
the type modulo `2 ^ w`; where the arithmetic of `int` and `long` itself leaves
the type, at the most negative value only, it is taken to wrap in the same way.
The overloads for ranges and for NUL-terminated strings pass their characters on
to the functions below.
-/

namespace Pimc

inductive NumberParseError where
  | Invalid
  | Overflow
  deriving DecidableEq, Repr

/-- `static_cast<T>(c - '0')`. -/
def digitOf (w : ℕ) (c : Char) : BitVec w := BitVec.ofNat w (c.toNat - '0'.toNat)

/-- The loop over the digits; `finish` is what follows it. -/
def digitLoop {σ α : Type} (step : σ → Char → σ) (finish : σ → Except NumberParseError α) (s : σ) :
    List Char → Except NumberParseError α
  | [] => finish s
  | c :: ii => if !c.isDigit then .error .Invalid else digitLoop step finish (step s c) ii

/-! ### Unsigned integers -/

/-- What the loop does to `ovf` and `acc` with a digit. -/
def unsignedStep {w : ℕ} (lastStep lastDigit : BitVec w) (s : Bool × BitVec w) (c : Char) :
    Bool × BitVec w :=
  if s.1 then s
  else if s.2 < lastStep ∨ (s.2 = lastStep ∧ digitOf w c ≤ lastDigit) then
    (false, s.2 * 10 + digitOf w c)
  else (true, s.2)

def unsignedLoop {w : ℕ} (lastStep lastDigit : BitVec w) (s : Bool × BitVec w)
    (first : List Char) : Except NumberParseError (BitVec w) :=
  digitLoop (unsignedStep lastStep lastDigit)
    (fun s => if s.1 then .error .Overflow else .ok s.2) s first

def parseDecimalUnsignedInteger {w : ℕ} (lastStep lastDigit : BitVec w) (first : List Char) :
    Except NumberParseError (BitVec w) :=
  if first = [] then .error .Invalid else unsignedLoop lastStep lastDigit (false, 0) first

def parseDecimalUInt64 (first : List Char) : Except NumberParseError (BitVec 64) :=
  parseDecimalUnsignedInteger 1844674407370955161 5 first

def parseDecimalUInt32 (first : List Char) : Except NumberParseError (BitVec 32) :=
  parseDecimalUnsignedInteger 429496729 5 first

def parseDecimalUInt16 (first : List Char) : Except NumberParseError (BitVec 16) :=
  parseDecimalUnsignedInteger 6553 5 first

def parseDecimalUInt8 (first : List Char) : Except NumberParseError (BitVec 8) :=
  parseDecimalUnsignedInteger 25 5 first

/-! ### Signed integers -/

def signedStep {w : ℕ} (lastStep lastDigit : BitVec w) (s : Bool × BitVec w) (c : Char) :
    Bool × BitVec w :=
  if s.1 then s
  else if s.2.slt lastStep ∨ (s.2 = lastStep ∧ (digitOf w c).sle lastDigit) then
    (false, s.2 * 10 + digitOf w c)
  else (true, s.2)

def signedLoop {w : ℕ} (lastStep lastDigit : BitVec w) (positive : Bool) (s : Bool × BitVec w)
    (first : List Char) : Except NumberParseError (BitVec w) :=
  digitLoop (signedStep lastStep lastDigit)
    (fun s => if s.1 then .error .Overflow else if positive then .ok s.2 else .ok (-s.2)) s first

def parseDecimalSignedInteger {w : ℕ} (lastStep positiveLastDigit negativeLastDigit : BitVec w)
    (first : List Char) : Except NumberParseError (BitVec w) :=
  match first with
  | [] => .error .Invalid
  | c :: rest =>
    if c = '-' then
      if rest = [] then .error .Invalid
      else signedLoop lastStep negativeLastDigit false (false, 0) rest
    else if c = '+' then
      if rest = [] then .error .Invalid
      else signedLoop lastStep positiveLastDigit true (false, 0) rest
    else signedLoop lastStep positiveLastDigit true (false, 0) (c :: rest)

def parseDecimalInt64 (first : List Char) : Except NumberParseError (BitVec 64) :=
  parseDecimalSignedInteger 922337203685477580 7 8 first

def parseDecimalInt32 (first : List Char) : Except NumberParseError (BitVec 32) :=
  parseDecimalSignedInteger 214748364 7 8 first

def parseDecimalInt16 (first : List Char) : Except NumberParseError (BitVec 16) :=
  parseDecimalSignedInteger 3276 7 8 first

def parseDecimalInt8 (first : List Char) : Except NumberParseError (BitVec 8) :=
  parseDecimalSignedInteger 12 7 8 first

/-! ### Digits -/

def Digits (cs : List Char) : Prop := cs ≠ [] ∧ ∀ c ∈ cs, c.isDigit = true

theorem decimal_snoc (ds : List Char) (c : Char) :
    decimal (ds ++ [c]) = decimal ds * 10 + (c.toNat - '0'.toNat) := by
  unfold decimal
  rw [List.foldl_append]
  rfl

theorem toNat_digitOf {w : ℕ} (hw : 10 < 2 ^ w) {c : Char} (h : c.isDigit = true) :
    (digitOf w c).toNat = c.toNat - '0'.toNat := by
  have hle := digit_le h
  unfold digitOf
  rw [BitVec.toNat_ofNat, Nat.mod_eq_of_lt (by omega)]

theorem toNat_nextAcc {w : ℕ} (hw : 10 < 2 ^ w) (acc : BitVec w) {c : Char}
    (h : c.isDigit = true) :
    (acc * 10 + digitOf w c).toNat = (acc.toNat * 10 + (c.toNat - '0'.toNat)) % 2 ^ w := by
  have hten : (10 : BitVec w).toNat = 10 := Nat.mod_eq_of_lt hw
  rw [BitVec.toNat_add, BitVec.toNat_mul, hten, toNat_digitOf hw h, Nat.mod_add_mod]

section Loop

variable {σ α : Type} {step : σ → Char → σ} {finish : σ → Except NumberParseError α}

theorem digitLoop_digits {ds : List Char} (hds : ∀ c ∈ ds, c.isDigit = true) (s : σ) :
    digitLoop step finish s ds = finish (ds.foldl step s) := by
  induction ds generalizing s with
  | nil => rfl
  | cons c ds ih =>
    have hc := hds c List.mem_cons_self
    rw [digitLoop, hc, List.foldl_cons]
    exact ih (fun d hd => hds d (List.mem_cons_of_mem c hd)) _

/-- A character that is no digit decides, whatever comes before or behind it. -/
theorem digitLoop_invalid {cs : List Char} (hcs : ¬ ∀ c ∈ cs, c.isDigit = true) (s : σ) :
    digitLoop step finish s cs = .error .Invalid := by
  induction cs generalizing s with
  | nil => exact absurd (by simp) hcs
  | cons c cs ih =>
    rw [digitLoop]
    by_cases hc : c.isDigit = true
    · rw [hc]
      apply ih
      intro hall
      apply hcs
      intro d hd
      rcases List.mem_cons.mp hd with rfl | hd
      · exact hc
      · exact hall d hd
    · simp [hc]

end Loop

/-! ### Unsigned integers are parsed exactly -/

section Unsigned

variable {w : ℕ} {lastStep lastDigit : BitVec w}

/-- The accumulator holds the value of the digits `ds` unless it has been found too large. -/
def UnsignedInv (ds : List Char) (s : Bool × BitVec w) : Prop :=
  if s.1 then 2 ^ w ≤ decimal ds else s.2.toNat = decimal ds

/-- The "last step" number and digit of a type: the largest value is one after the other. -/
structure LastStep (lastStep lastDigit : BitVec w) : Prop where
  wide : 10 < 2 ^ w
  largest : 10 * lastStep.toNat + lastDigit.toNat + 1 = 2 ^ w
  digit : lastDigit.toNat ≤ 9

theorem unsignedInv_step (hlast : LastStep lastStep lastDigit) {ds : List Char}
    {s : Bool × BitVec w} (h : UnsignedInv ds s) {c : Char} (hc : c.isDigit = true) :
    UnsignedInv (ds ++ [c]) (unsignedStep lastStep lastDigit s c) := by
  have hdec := decimal_snoc ds c
  have hle := digit_le hc
  have hd := toNat_digitOf hlast.wide hc
  have hlargest := hlast.largest
  have hdigit := hlast.digit
  obtain ⟨ovf, acc⟩ := s
  unfold UnsignedInv at h
  unfold unsignedStep
  cases ovf with
  | true =>
    simp only [if_true] at h ⊢
    unfold UnsignedInv
    simp only [if_true]
    omega
  | false =>
    simp only [Bool.false_eq_true, if_false] at h ⊢
    have hlt : acc < lastStep ↔ acc.toNat < lastStep.toNat := Iff.rfl
    have heq : acc = lastStep ↔ acc.toNat = lastStep.toNat := BitVec.toNat_inj.symm
    have hled : digitOf w c ≤ lastDigit ↔ (digitOf w c).toNat ≤ lastDigit.toNat := Iff.rfl
    split_ifs with hguard
    · rw [hlt, heq, hled] at hguard
      unfold UnsignedInv
      simp only [Bool.false_eq_true, if_false]
      rw [toNat_nextAcc hlast.wide acc hc, Nat.mod_eq_of_lt (by omega)]
      omega
    · rw [hlt, heq, hled] at hguard
      unfold UnsignedInv
      simp only [if_true]
      omega

theorem unsignedInv_foldl (hlast : LastStep lastStep lastDigit) {ds : List Char}
    (hds : ∀ c ∈ ds, c.isDigit = true) :
    UnsignedInv ds (ds.foldl (unsignedStep lastStep lastDigit) (false, 0)) := by
  induction ds using List.reverseRecOn with
  | nil => simp [UnsignedInv, decimal]
  | append_singleton ds c ih =>
    rw [List.foldl_append, List.foldl_cons, List.foldl_nil]
    have hinit := ih fun d hd => hds d (List.mem_append_left _ hd)
    exact unsignedInv_step hlast hinit (hds c (by simp))

/-- The result is the value of the digits, or the reason why there is none. -/
structure ParsesUnsigned (r : Except NumberParseError (BitVec w)) (cs : List Char) : Prop where
  invalid : r = .error .Invalid ↔ ¬ Digits cs
  overflow : r = .error .Overflow ↔ Digits cs ∧ 2 ^ w ≤ decimal cs
  value : ∀ v, r = .ok v ↔ Digits cs ∧ v.toNat = decimal cs

theorem parseDecimalUnsignedInteger_parses (hlast : LastStep lastStep lastDigit)
    (cs : List Char) : ParsesUnsigned (parseDecimalUnsignedInteger lastStep lastDigit cs) cs := by
  by_cases hcs : Digits cs
  · have hinv := unsignedInv_foldl hlast hcs.2
    have hparse : parseDecimalUnsignedInteger lastStep lastDigit cs =
        unsignedLoop lastStep lastDigit (false, 0) cs := if_neg hcs.1
    rw [hparse, unsignedLoop, digitLoop_digits hcs.2]
    generalize cs.foldl (unsignedStep lastStep lastDigit) (false, 0) = s at hinv ⊢
    obtain ⟨ovf, acc⟩ := s
    have hlt := acc.isLt
    cases ovf with
    | true =>
      replace hinv : 2 ^ w ≤ decimal cs := hinv
      refine ⟨?_, ?_, ?_⟩
      · simp [hcs]
      · simp [hcs, hinv]
      · intro v
        have hv := v.isLt
        simp only [if_true, reduceCtorEq, false_iff, not_and]
        omega
    | false =>
      replace hinv : acc.toNat = decimal cs := hinv
      refine ⟨?_, ?_, ?_⟩
      · simp [hcs]
      · simp only [Bool.false_eq_true, if_false, reduceCtorEq, false_iff, not_and]
        omega
      · intro v
        simp only [Bool.false_eq_true, if_false, Except.ok.injEq, hcs, true_and]
        rw [← hinv, eq_comm, BitVec.toNat_inj]
  · have hparse : parseDecimalUnsignedInteger lastStep lastDigit cs = .error .Invalid := by
      unfold parseDecimalUnsignedInteger
      split_ifs with hempty
      · rfl
      · exact digitLoop_invalid (fun hall => hcs ⟨hempty, hall⟩) _
    rw [hparse]
    constructor <;> simp [hcs]

/-- What is assigned to the accumulator is what C++ computes without a bound. -/
def NeverWraps (lastStep lastDigit : BitVec w) : Prop :=
  ∀ ds c, (∀ d ∈ ds ++ [c], d.isDigit = true) →
    let s := ds.foldl (unsignedStep lastStep lastDigit) (false, 0)
    let s' := unsignedStep lastStep lastDigit s c
    s'.1 = false → s'.2.toNat = s.2.toNat * 10 + (c.toNat - '0'.toNat)

theorem neverWraps (hlast : LastStep lastStep lastDigit) : NeverWraps lastStep lastDigit := by
  intro ds c hdigits s s' hs'
  have hinit : UnsignedInv ds s :=
    unsignedInv_foldl hlast fun d hd => hdigits d (List.mem_append_left _ hd)
  have hnext : UnsignedInv (ds ++ [c]) s' := unsignedInv_step hlast hinit (hdigits c (by simp))
  have hs : s.1 = false := by
    cases hovf : s.1 with
    | false => rfl
    | true =>
      have hsame : s' = s := if_pos hovf
      rw [hsame, hovf] at hs'
      cases hs'
  unfold UnsignedInv at hinit hnext
  rw [hs] at hinit
  rw [hs'] at hnext
  simp only [Bool.false_eq_true, if_false] at hinit hnext
  rw [hnext, hinit, decimal_snoc]

end Unsigned

theorem lastStep64 : LastStep (1844674407370955161 : BitVec 64) 5 := ⟨by decide, by decide, by decide⟩

theorem lastStep32 : LastStep (429496729 : BitVec 32) 5 := ⟨by decide, by decide, by decide⟩

theorem lastStep16 : LastStep (6553 : BitVec 16) 5 := ⟨by decide, by decide, by decide⟩

theorem lastStep8 : LastStep (25 : BitVec 8) 5 := ⟨by decide, by decide, by decide⟩

/-- The unsigned parsers are exact at every width. -/
theorem parseDecimalUInt_exact :
    ((∀ cs, ParsesUnsigned (parseDecimalUInt64 cs) cs) ∧
      NeverWraps (1844674407370955161 : BitVec 64) 5) ∧
    ((∀ cs, ParsesUnsigned (parseDecimalUInt32 cs) cs) ∧ NeverWraps (429496729 : BitVec 32) 5) ∧
    ((∀ cs, ParsesUnsigned (parseDecimalUInt16 cs) cs) ∧ NeverWraps (6553 : BitVec 16) 5) ∧
    (∀ cs, ParsesUnsigned (parseDecimalUInt8 cs) cs) ∧ NeverWraps (25 : BitVec 8) 5 :=
  ⟨⟨parseDecimalUnsignedInteger_parses lastStep64, neverWraps lastStep64⟩,
    ⟨parseDecimalUnsignedInteger_parses lastStep32, neverWraps lastStep32⟩,
    ⟨parseDecimalUnsignedInteger_parses lastStep16, neverWraps lastStep16⟩,
    parseDecimalUnsignedInteger_parses lastStep8, neverWraps lastStep8⟩

example : parseDecimalUInt8 "00255".toList = .ok 255 := by decide

example : parseDecimalUInt8 "256x".toList = .error .Invalid := by decide

end Pimc
