import Mathlib.Data.Rat.Floor
import Pimc.Formatters.NanosText

/-!
# Times and durations as text

The formatters of apps/mclst/OutputHandler.hpp and of apps/pimc/logging
(ConsoleLogger.cpp, FileLogger.cpp). The date and the time of day that stand
before the point depend on the `time_t` given to `localtime_r` only.
-/

namespace Pimc

open NanosText

/-- The `time_t` that a formatter converts, and what it prints after the point. -/
structure TimeText where
  tt : ℕ
  fraction : List Char
  deriving DecidableEq, Repr

/-- The formatters that call `prc` on `nanos`; `width` is that of `{:<width}`. -/
def formatTime (prec width : ℕ) (ts : BitVec 64) : Except BufError TimeText := do
  let tt := ts.toNat / 1000000000
  -- the source takes the quotient a second time, not the remainder
  let nanos := ts.toNat / 1000000000
  let (nstext, carry) ← prc nanos prec
  return ⟨tt + carry, nstext.rightpad width ' '⟩

namespace Mclst

def formatTimestamp : BitVec 64 → Except BufError TimeText := formatTime 6 6

def formatBeaconTime : BitVec 64 → Except BufError TimeText := formatTime 9 0

def formatDuration (d : BitVec 64) : Except BufError (List Char) := do
  let nanos := d.toNat % 1000000000
  let secs := d.toNat / 1000000000
  let (nstext, _) ← prc nanos 6
  return Nat.toDigits 10 secs ++ '.' :: nstext

end Mclst

namespace ConsoleLogger

def formatTimestamp : BitVec 64 → Except BufError TimeText := formatTime 6 6

end ConsoleLogger

namespace FileLogger

def formatTimeValue (ts : BitVec 64) : Except BufError TimeText :=
  let tt := ts.toNat / 1000000000
  let nanos := ts.toNat / 1000000000
  .ok ⟨tt, (Nat.toDigits 10 nanos).rightpad 9 ' '⟩

end FileLogger

/-! ### What a text denotes, in seconds -/

def fractionValue (ds : List Char) : ℚ := decimal ds / 10 ^ ds.length

def TimeText.value (t : TimeText) : ℚ := t.tt + fractionValue (t.fraction.takeWhile Char.isDigit)

/-- Whole seconds, a point and the digits of a fraction. -/
def durationValue (text : List Char) : ℚ :=
  decimal (text.takeWhile (· ≠ '.')) + fractionValue (text.dropWhile (· ≠ '.')).tail

/-- A printed text, read by `value`, denotes `x` seconds. -/
def Denotes {α : Type} (value : α → ℚ) (printed : Except BufError α) (x : ℚ) : Prop :=
  ∃ text, printed = .ok text ∧ value text = x

def seconds (nanos : ℕ) : ℚ := nanos / 10 ^ 9

/-- Rounded half up to microseconds. -/
def secondsToMicros (nanos : ℕ) : ℚ := round ((nanos : ℚ) / 1000) / 10 ^ 6

def wholeSeconds (ts : BitVec 64) : ℕ := ts.toNat / 10 ^ 9

def subSecond (ts : BitVec 64) : ℕ := ts.toNat % 10 ^ 9

def Apart (ts ts' : BitVec 64) : Prop :=
  ts.toNat + 1000 ≤ ts'.toNat ∨ ts'.toNat + 1000 ≤ ts.toNat

theorem denotes_ok {α : Type} (value : α → ℚ) (text : α) (x : ℚ) :
    Denotes value (.ok text) x ↔ value text = x := by
  apply Iff.intro
  · intro h
    obtain ⟨_, htext, hvalue⟩ := h
    cases htext
    exact hvalue
  · intro hvalue
    exact ⟨text, rfl, hvalue⟩

/-! ### Digits -/

theorem decimal_lt {ds : List Char} (h : ∀ c ∈ ds, c.isDigit = true) :
    decimal ds < 10 ^ ds.length := by
  induction ds with
  | nil => simp [decimal]
  | cons c ds ih =>
    have hhead := digit_le (h c List.mem_cons_self)
    have htail := ih fun c' hc' => h c' (List.mem_cons_of_mem c hc')
    have hmul := Nat.mul_le_mul_right (10 ^ ds.length) hhead
    rw [decimal_cons, List.length_cons, pow_succ]
    omega

theorem eq_nil_of_decimal_eq_zero {ds : List Char} (h : ∀ c ∈ ds, c.isDigit = true)
    (hlast : ds.getLast? ≠ some '0') (hzero : decimal ds = 0) : ds = [] := by
  induction ds with
  | nil => rfl
  | cons c ds ih =>
    rw [decimal_cons] at hzero
    have hpos : 0 < 10 ^ ds.length := Nat.pow_pos (by omega)
    have hmul : (c.toNat - '0'.toNat) * 10 ^ ds.length = 0 := by omega
    have htail : decimal ds = 0 := by omega
    cases ds with
    | nil =>
      have hdigit : c.isDigit = true := h c List.mem_cons_self
      have hge : 48 ≤ c.toNat := by
        simp only [Char.isDigit, Bool.and_eq_true, decide_eq_true_eq] at hdigit
        exact hdigit.1
      have hval : '0'.toNat = 48 := rfl
      have hc : c.toNat = '0'.toNat := by
        rw [List.length_nil, pow_zero, Nat.mul_one] at hmul
        omega
      exact absurd (by rw [Char.toNat_inj.mp hc]; rfl) hlast
    | cons c' ds =>
      rw [List.getLast?_cons_cons] at hlast
      have hnil := ih (fun c'' hc'' => h c'' (List.mem_cons_of_mem c hc'')) hlast htail
      cases hnil

/-! ### What `prc` has rounded -/

/-- The low nine digits of `n` in units of `10 ^ (p - 9)`. -/
def roundedTo (n p : ℕ) : ℕ := (n % 10 ^ 9 + halfUnit p) / 10 ^ (9 - p)

theorem NanosText.Rounds.value_eq {n p carry : ℕ} {ds : List Char} (h : Rounds n p ds carry) :
    fractionValue ds + carry = (roundedTo n p : ℚ) / 10 ^ p := by
  have hsplit : (10 : ℚ) ^ p = 10 ^ ds.length * 10 ^ (p - ds.length) := by
    rw [← pow_add, Nat.add_sub_cancel' h.length]
  have hvalue : (decimal ds : ℚ) * 10 ^ (p - ds.length) + carry * 10 ^ p = roundedTo n p := by
    unfold roundedTo
    rw [← h.value]
    push_cast
    rfl
  unfold fractionValue
  rw [← hvalue, hsplit]
  field_simp

theorem NanosText.Rounds.carry_eq_one_iff {n p carry : ℕ} {ds : List Char} (h : Rounds n p ds carry) :
    carry = 1 ↔ 10 ^ p ≤ roundedTo n p := by
  have hvalue := h.value
  have hle := h.carry_le
  have hlt := decimal_lt h.digits
  have hsplit : 10 ^ p = 10 ^ ds.length * 10 ^ (p - ds.length) := by
    rw [← pow_add, Nat.add_sub_cancel' h.length]
  have hmul := (Nat.mul_lt_mul_right (Nat.pow_pos (n := p - ds.length) (show 0 < 10 by omega))).mpr hlt
  unfold roundedTo
  rw [← hvalue]
  apply Iff.intro
  · intro hcarry
    rw [hcarry, Nat.one_mul]
    omega
  · intro hcarry
    by_contra hne
    have hzero : carry = 0 := by omega
    rw [hzero, Nat.zero_mul, Nat.add_zero] at hcarry
    omega

/-- Nothing is printed after the point exactly if the rounded value is a whole number. -/
theorem NanosText.Rounds.eq_nil {n p carry : ℕ} {ds : List Char} (h : Rounds n p ds carry)
    (hwhole : roundedTo n p = carry * 10 ^ p) : ds = [] := by
  have hvalue := h.value
  have hpos : 0 < 10 ^ (p - ds.length) := Nat.pow_pos (by omega)
  unfold roundedTo at hwhole
  rw [hwhole] at hvalue
  have hmul : decimal ds * 10 ^ (p - ds.length) = 0 := by omega
  exact eq_nil_of_decimal_eq_zero h.digits h.last ((Nat.mul_eq_zero.mp hmul).resolve_right hpos.ne')

theorem roundedTo_six (n : ℕ) : roundedTo n 6 = (n % 1000000000 + 500) / 1000 := rfl

theorem roundedTo_nine (n : ℕ) : roundedTo n 9 = n % 1000000000 := by
  show (n % 1000000000 + 0) / 1 = _
  rw [Nat.div_one, Nat.add_zero]

theorem secondsToMicros_eq (nanos : ℕ) :
    secondsToMicros nanos = (((nanos + 500) / 1000 : ℕ) : ℚ) / 10 ^ 6 := by
  have hround : round ((nanos : ℚ) / 1000) = ((nanos + 500) / 1000 : ℕ) := by
    have hnat : (2 * nanos + 1000) / (2 * 1000) = (nanos + 500) / 1000 := by omega
    have hthousand := NanosText.round_natCast_div nanos (d := 1000) (by decide)
    rwa [hnat] at hthousand
  unfold secondsToMicros
  rw [hround]
  push_cast
  rfl

/-! ### The formatters that round -/

theorem takeWhile_rightpad {ds : List Char} (width : ℕ) (h : ∀ c ∈ ds, c.isDigit = true) :
    (ds.rightpad width ' ').takeWhile Char.isDigit = ds := by
  have hspace : (' ' : Char).isDigit = false := rfl
  unfold List.rightpad
  rw [List.takeWhile_append_of_pos h, List.takeWhile_replicate, hspace, if_neg (by decide),
    List.append_nil]

theorem formatTime_spec (prec width : ℕ) (hprec : 1 ≤ prec) (ts : BitVec 64) :
    ∃ ds carry, Rounds (wholeSeconds ts) (min prec 9) ds carry ∧
      formatTime prec width ts = .ok ⟨wholeSeconds ts + carry, ds.rightpad width ' '⟩ := by
  obtain ⟨ds, carry, hprc, hrounds⟩ := prc_spec (wholeSeconds ts) hprec
  refine ⟨ds, carry, hrounds, ?_⟩
  show (do
    let (nstext, carry) ← prc (wholeSeconds ts) prec
    return TimeText.mk (wholeSeconds ts + carry) (nstext.rightpad width ' ')) = _
  rw [hprc]
  rfl

theorem formatTime_denotes (prec width : ℕ) (hprec : 1 ≤ prec) (ts : BitVec 64) (x : ℚ) :
    Denotes TimeText.value (formatTime prec width ts) x ↔
      (wholeSeconds ts : ℚ) + (roundedTo (wholeSeconds ts) (min prec 9) : ℚ) / 10 ^ min prec 9 =
        x := by
  obtain ⟨ds, carry, hrounds, hformat⟩ := formatTime_spec prec width hprec ts
  have hvalue : TimeText.value ⟨wholeSeconds ts + carry, ds.rightpad width ' '⟩ =
      (wholeSeconds ts : ℚ) + (roundedTo (wholeSeconds ts) (min prec 9) : ℚ) / 10 ^ min prec 9 := by
    unfold TimeText.value
    rw [takeWhile_rightpad width hrounds.digits, ← hrounds.value_eq]
    push_cast
    ring
  rw [hformat, denotes_ok, hvalue]

theorem units_eq_iff (p a b m : ℕ) :
    (a : ℚ) + (b : ℚ) / 10 ^ p = (m : ℚ) / 10 ^ p ↔ a * 10 ^ p + b = m := by
  have hpos : (10 : ℚ) ^ p ≠ 0 := pow_ne_zero p (by norm_num)
  rw [eq_div_iff hpos, add_mul, div_mul_cancel₀ _ hpos]
  exact_mod_cast Iff.rfl

theorem timestamp_denotes_iff (width : ℕ) (ts : BitVec 64) :
    Denotes TimeText.value (formatTime 6 width ts) (secondsToMicros ts.toNat) ↔
      (wholeSeconds ts % 10 ^ 9 + 500) / 1000 = (subSecond ts + 500) / 1000 := by
  have hmin : min 6 9 = 6 := rfl
  rw [formatTime_denotes 6 width (by omega), secondsToMicros_eq, hmin, units_eq_iff, roundedTo_six]
  unfold wholeSeconds subSecond
  omega

theorem beaconTime_denotes_iff (width : ℕ) (ts : BitVec 64) :
    Denotes TimeText.value (formatTime 9 width ts) (seconds ts.toNat) ↔
      wholeSeconds ts % 10 ^ 9 = subSecond ts := by
  have hmin : min 9 9 = 9 := rfl
  unfold seconds
  rw [formatTime_denotes 9 width (by omega), hmin, units_eq_iff, roundedTo_nine]
  unfold wholeSeconds subSecond
  omega

theorem timeValue_denotes_iff (ts : BitVec 64) :
    Denotes TimeText.value (FileLogger.formatTimeValue ts) (seconds ts.toNat) ↔
      wholeSeconds ts * 10 ^ 9 =
        subSecond ts * 10 ^ (Nat.toDigits 10 (wholeSeconds ts)).length := by
  have hdigits : ∀ c ∈ Nat.toDigits 10 (wholeSeconds ts), c.isDigit = true := fun c hc =>
    Nat.isDigit_of_mem_toDigits (by omega) (by omega) hc
  have hformat : FileLogger.formatTimeValue ts =
      .ok ⟨wholeSeconds ts, (Nat.toDigits 10 (wholeSeconds ts)).rightpad 9 ' '⟩ := rfl
  have hsplit : ((ts.toNat : ℕ) : ℚ) = (wholeSeconds ts : ℚ) * 10 ^ 9 + subSecond ts := by
    have hdiv : ts.toNat = wholeSeconds ts * 10 ^ 9 + subSecond ts := by
      unfold wholeSeconds subSecond
      omega
    exact_mod_cast hdiv
  rw [hformat, denotes_ok]
  unfold TimeText.value seconds fractionValue
  rw [takeWhile_rightpad 9 hdigits, decimal_toDigits, hsplit, add_div,
    mul_div_cancel_right₀ _ (by norm_num), add_right_inj, div_eq_div_iff (by positivity) (by norm_num)]
  exact_mod_cast Iff.rfl

/-! ### Times printed alike -/

theorem formatTime_congr (prec width : ℕ) {ts ts' : BitVec 64}
    (h : wholeSeconds ts = wholeSeconds ts') :
    formatTime prec width ts = formatTime prec width ts' := by
  have hdiv : ts.toNat / 1000000000 = ts'.toNat / 1000000000 := h
  unfold formatTime
  rw [hdiv]

theorem formatTime_units {prec width : ℕ} (hprec : 1 ≤ prec) {ts ts' : BitVec 64}
    (h : formatTime prec width ts = formatTime prec width ts') :
    wholeSeconds ts * 10 ^ min prec 9 + roundedTo (wholeSeconds ts) (min prec 9) =
      wholeSeconds ts' * 10 ^ min prec 9 + roundedTo (wholeSeconds ts') (min prec 9) := by
  have hdenotes := (formatTime_denotes prec width hprec ts _).mpr rfl
  rw [h, formatTime_denotes prec width hprec ts'] at hdenotes
  have hunits := (units_eq_iff (min prec 9) (wholeSeconds ts)
    (roundedTo (wholeSeconds ts) (min prec 9)) _).mpr rfl
  rw [hunits, units_eq_iff] at hdenotes
  exact hdenotes.symm

theorem formatTime_whole {prec c : ℕ} (width : ℕ) (hprec : 1 ≤ prec) (hc : c ≤ 1) {ts : BitVec 64}
    (h : roundedTo (wholeSeconds ts) (min prec 9) = c * 10 ^ min prec 9) :
    formatTime prec width ts = .ok ⟨wholeSeconds ts + c, List.replicate width ' '⟩ := by
  obtain ⟨ds, carry, hrounds, hformat⟩ := formatTime_spec prec width hprec ts
  have hpos : 0 < 10 ^ min prec 9 := Nat.pow_pos (by omega)
  have hcarry : carry = c := by
    have hle := hrounds.carry_le
    have hone := hrounds.carry_eq_one_iff
    rw [h] at hone
    by_cases hc1 : c = 1
    · rw [hc1, Nat.one_mul] at hone
      rw [hc1]
      exact hone.mpr le_rfl
    · have hc0 : c = 0 := by omega
      rw [hc0, Nat.zero_mul] at hone
      omega
  have hnil := hrounds.eq_nil (by rw [h, hcarry])
  rw [hformat, hnil, hcarry]
  rfl

/-- The rounded second numbers of `ts` and `ts'` run into one another. -/
def Merged (ts ts' : BitVec 64) : Prop :=
  wholeSeconds ts = wholeSeconds ts' ∨
    (wholeSeconds ts % 10 ^ 9 = 999999999 ∧ wholeSeconds ts' = wholeSeconds ts + 1) ∨
    (wholeSeconds ts' % 10 ^ 9 = 999999999 ∧ wholeSeconds ts = wholeSeconds ts' + 1)

theorem timestamp_rollover (width : ℕ) {ts ts' : BitVec 64}
    (h : wholeSeconds ts % 10 ^ 9 = 999999999) (hnext : wholeSeconds ts' = wholeSeconds ts + 1) :
    formatTime 6 width ts = formatTime 6 width ts' := by
  have hup : roundedTo (wholeSeconds ts) 6 = 1 * 10 ^ 6 := by
    rw [roundedTo_six]
    omega
  have hzero : roundedTo (wholeSeconds ts') 6 = 0 * 10 ^ 6 := by
    rw [roundedTo_six]
    omega
  rw [formatTime_whole width (by omega) le_rfl hup, formatTime_whole width (by omega) (by omega) hzero,
    hnext]

theorem rollover_of_lt {s s' : ℕ} (hlt : s < s')
    (h : s * 10 ^ 6 + (s % 10 ^ 9 + 500) / 1000 = s' * 10 ^ 6 + (s' % 10 ^ 9 + 500) / 1000) :
    s % 10 ^ 9 = 999999999 ∧ s' = s + 1 := by
  have hfull : (s % 10 ^ 9 + 500) / 1000 ≤ 10 ^ 6 := by omega
  have hmul : (s + 1) * 10 ^ 6 ≤ s' * 10 ^ 6 := Nat.mul_le_mul_right _ hlt
  have hnext : s' = s + 1 := by
    by_contra hne
    have hfar : (s + 2) * 10 ^ 6 ≤ s' * 10 ^ 6 := Nat.mul_le_mul_right _ (by omega)
    omega
  subst hnext
  have hup : 999999500 ≤ s % 10 ^ 9 := by omega
  have hdown : (s + 1) % 10 ^ 9 < 500 := by omega
  exact ⟨by omega, rfl⟩

theorem timestamp_eq_iff (width : ℕ) (ts ts' : BitVec 64) :
    formatTime 6 width ts = formatTime 6 width ts' ↔ Merged ts ts' := by
  apply Iff.intro
  · intro h
    have hunits := formatTime_units (by omega) h
    have hmin : min 6 9 = 6 := rfl
    rw [hmin, roundedTo_six, roundedTo_six] at hunits
    rcases lt_trichotomy (wholeSeconds ts) (wholeSeconds ts') with hlt | heq | hlt
    · exact Or.inr (Or.inl (rollover_of_lt hlt hunits))
    · exact Or.inl heq
    · exact Or.inr (Or.inr (rollover_of_lt hlt hunits.symm))
  · intro h
    obtain heq | ⟨hlast, hnext⟩ | ⟨hlast, hnext⟩ := h
    · exact formatTime_congr 6 width heq
    · exact timestamp_rollover width hlast hnext
    · exact (timestamp_rollover width hlast hnext).symm

theorem beaconTime_eq_iff (width : ℕ) (ts ts' : BitVec 64) :
    formatTime 9 width ts = formatTime 9 width ts' ↔ wholeSeconds ts = wholeSeconds ts' := by
  apply Iff.intro
  · intro h
    have hunits := formatTime_units (by omega) h
    have hmin : min 9 9 = 9 := rfl
    rw [hmin, roundedTo_nine, roundedTo_nine] at hunits
    omega
  · exact formatTime_congr 9 width

theorem timeValue_eq_iff (ts ts' : BitVec 64) :
    FileLogger.formatTimeValue ts = FileLogger.formatTimeValue ts' ↔
      wholeSeconds ts = wholeSeconds ts' := by
  apply Iff.intro
  · intro h
    exact congrArg TimeText.tt (Except.ok.inj h)
  · intro h
    have hdiv : ts.toNat / 1000000000 = ts'.toNat / 1000000000 := h
    unfold FileLogger.formatTimeValue
    rw [hdiv]

/-- Times a microsecond or more apart are printed differently. -/
def Separates (format : BitVec 64 → Except BufError TimeText) (ts ts' : BitVec 64) : Prop :=
  Apart ts ts' → format ts ≠ format ts'

/-- Each formatter is right where the number of whole seconds, which it prints after the point,
happens to be the sub-second part. -/
theorem timestamps_exact_iff (ts ts' : BitVec 64) :
    ((Denotes TimeText.value (Mclst.formatTimestamp ts) (secondsToMicros ts.toNat) ↔
        (wholeSeconds ts % 10 ^ 9 + 500) / 1000 = (subSecond ts + 500) / 1000) ∧
      (Denotes TimeText.value (ConsoleLogger.formatTimestamp ts) (secondsToMicros ts.toNat) ↔
        (wholeSeconds ts % 10 ^ 9 + 500) / 1000 = (subSecond ts + 500) / 1000) ∧
      (Denotes TimeText.value (Mclst.formatBeaconTime ts) (seconds ts.toNat) ↔
        wholeSeconds ts % 10 ^ 9 = subSecond ts) ∧
      (Denotes TimeText.value (FileLogger.formatTimeValue ts) (seconds ts.toNat) ↔
        wholeSeconds ts * 10 ^ 9 =
          subSecond ts * 10 ^ (Nat.toDigits 10 (wholeSeconds ts)).length)) ∧
    ((Separates Mclst.formatTimestamp ts ts' ↔ (Apart ts ts' → ¬ Merged ts ts')) ∧
      (Separates ConsoleLogger.formatTimestamp ts ts' ↔ (Apart ts ts' → ¬ Merged ts ts')) ∧
      (Separates Mclst.formatBeaconTime ts ts' ↔
        (Apart ts ts' → wholeSeconds ts ≠ wholeSeconds ts')) ∧
      (Separates FileLogger.formatTimeValue ts ts' ↔
        (Apart ts ts' → wholeSeconds ts ≠ wholeSeconds ts'))) := by
  have htimestamp := timestamp_denotes_iff 6 ts
  have hmerged : Separates (formatTime 6 6) ts ts' ↔ (Apart ts ts' → ¬ Merged ts ts') :=
    imp_congr_right fun _ => not_congr (timestamp_eq_iff 6 ts ts')
  have hbeacon : Separates (formatTime 9 0) ts ts' ↔
      (Apart ts ts' → wholeSeconds ts ≠ wholeSeconds ts') :=
    imp_congr_right fun _ => not_congr (beaconTime_eq_iff 0 ts ts')
  have hfile : Separates FileLogger.formatTimeValue ts ts' ↔
      (Apart ts ts' → wholeSeconds ts ≠ wholeSeconds ts') :=
    imp_congr_right fun _ => not_congr (timeValue_eq_iff ts ts')
  exact ⟨⟨htimestamp, htimestamp, beaconTime_denotes_iff 0 ts, timeValue_denotes_iff ts⟩,
    ⟨hmerged, hmerged, hbeacon, hfile⟩⟩

/-- Half a second after the epoch, and the epoch itself. -/
theorem half_second_lost :
    (¬ Denotes TimeText.value (Mclst.formatTimestamp 500000000) (secondsToMicros 500000000) ∧
      ¬ Denotes TimeText.value (ConsoleLogger.formatTimestamp 500000000)
        (secondsToMicros 500000000) ∧
      ¬ Denotes TimeText.value (Mclst.formatBeaconTime 500000000) (seconds 500000000) ∧
      ¬ Denotes TimeText.value (FileLogger.formatTimeValue 500000000) (seconds 500000000)) ∧
    (¬ Separates Mclst.formatTimestamp 500000000 0 ∧
      ¬ Separates ConsoleLogger.formatTimestamp 500000000 0 ∧
      ¬ Separates Mclst.formatBeaconTime 500000000 0 ∧
      ¬ Separates FileLogger.formatTimeValue 500000000 0) := by
  have hapart : Apart 500000000 0 := Or.inr (by decide)
  have hsame : wholeSeconds 500000000 = wholeSeconds 0 := by decide
  have htimestamp : ¬ Denotes TimeText.value (formatTime 6 6 500000000)
      (secondsToMicros 500000000) := by
    intro h
    exact absurd ((timestamp_denotes_iff 6 500000000).mp h) (by decide)
  refine ⟨⟨htimestamp, htimestamp, ?_, ?_⟩, ?_, ?_, ?_, ?_⟩
  · intro h
    exact absurd ((beaconTime_denotes_iff 0 500000000).mp h) (by decide)
  · intro h
    exact absurd ((timeValue_denotes_iff 500000000).mp h) (by decide)
  · exact fun h => h hapart (formatTime_congr 6 6 hsame)
  · exact fun h => h hapart (formatTime_congr 6 6 hsame)
  · exact fun h => h hapart (formatTime_congr 9 0 hsame)
  · exact fun h => h hapart ((timeValue_eq_iff 500000000 0).mpr hsame)

/-! ### Durations -/

theorem durationValue_text {ds : List Char} (secs : ℕ) :
    durationValue (Nat.toDigits 10 secs ++ '.' :: ds) = secs + fractionValue ds := by
  have hwhole : ∀ c ∈ Nat.toDigits 10 secs, decide (c ≠ '.') = true := by
    intro c hc
    have hdigit : c.isDigit = true := Nat.isDigit_of_mem_toDigits (by omega) (by omega) hc
    rw [decide_eq_true_iff]
    intro hpoint
    rw [hpoint] at hdigit
    cases hdigit
  unfold durationValue
  rw [List.takeWhile_append_of_pos hwhole, List.dropWhile_append_of_pos hwhole,
    List.takeWhile_cons_of_neg (by decide), List.dropWhile_cons_of_neg (by decide),
    List.append_nil, decimal_toDigits, List.tail_cons]

theorem formatDuration_spec (d : BitVec 64) :
    ∃ ds carry, Rounds (subSecond d) 6 ds carry ∧
      Mclst.formatDuration d = .ok (Nat.toDigits 10 (wholeSeconds d) ++ '.' :: ds) := by
  obtain ⟨ds, carry, hprc, hrounds⟩ := prc_spec (subSecond d) (show 1 ≤ 6 by omega)
  refine ⟨ds, carry, hrounds, ?_⟩
  show (do
    let (nstext, _) ← prc (subSecond d) 6
    return Nat.toDigits 10 (wholeSeconds d) ++ '.' :: nstext) = _
  rw [hprc]
  rfl

/-- The carry is dropped, so that what is printed is a second short where there is one. -/
theorem duration_exact_iff (d : BitVec 64) :
    Denotes durationValue (Mclst.formatDuration d) (secondsToMicros d.toNat) ↔
      d.toNat % 10 ^ 9 < 999999500 := by
  obtain ⟨ds, carry, hrounds, hformat⟩ := formatDuration_spec d
  have hvalue := hrounds.value_eq
  have hone := hrounds.carry_eq_one_iff
  have hle := hrounds.carry_le
  have hmod : subSecond d % 1000000000 = subSecond d := Nat.mod_mod _ _
  rw [roundedTo_six, hmod] at hvalue hone
  have hmicros : ((d.toNat + 500) / 1000 : ℕ) =
      wholeSeconds d * 10 ^ 6 + (subSecond d + 500) / 1000 := by
    unfold wholeSeconds subSecond
    omega
  have htotal := (units_eq_iff 6 (wholeSeconds d) ((subSecond d + 500) / 1000) _).mpr rfl
  rw [hformat, denotes_ok, durationValue_text, secondsToMicros_eq, hmicros, ← htotal, ← hvalue,
    add_right_inj, left_eq_add, Nat.cast_eq_zero]
  unfold subSecond at hone
  omega

theorem second_lost :
    ¬ Denotes durationValue (Mclst.formatDuration 999999500) (secondsToMicros 999999500) := by
  have htext : Mclst.formatDuration 999999500 = .ok (Nat.toDigits 10 0 ++ '.' :: []) := by decide
  have hfraction : fractionValue [] = 0 := by simp [fractionValue, decimal]
  rw [htext, denotes_ok, durationValue_text, hfraction, secondsToMicros_eq]
  norm_num

end Pimc
