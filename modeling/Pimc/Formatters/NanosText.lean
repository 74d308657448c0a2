import Mathlib.Data.Rat.Floor
import Mathlib.Tactic.Ring
import Pimc.Net.IPv4Parser

/-!
# Rounding a sub-second part to text (lib/pimc/formatters/NanosText.hpp)

An access to `buf` outside its ten characters is an error, and so is reading a
character that was not written.
-/

namespace Pimc

inductive BufError where
  | outside
  | unset
  deriving DecidableEq, Repr

-- `buf[i] = c`.
def bufWrite (buf : List (Option Char)) (i : ℕ) (c : Char) : Except BufError (List (Option Char)) :=
  if i < buf.length then .ok (buf.set i (some c)) else .error .outside

/-- The text from the start of `buf` up to its NUL. -/
def bufText : List (Option Char) → Except BufError (List Char)
  | [] => .error .outside
  | none :: _ => .error .unset
  | some c :: buf => if c = '\x00' then .ok [] else (c :: ·) <$> bufText buf

namespace NanosText

structure Prc where
  nanos : ℕ
  carry : ℕ
  ln0 : ℕ
  ln0set : Bool
  buf : List (Option Char)

-- `static_cast<char>('0' + d)`.
def digitChar (d : ℕ) : Char := Char.ofNat (48 + d)

def prcStep (prec i : ℕ) (s : Prc) : Except BufError Prc :=
  let lastD := s.nanos % 10 + s.carry
  let s := { s with nanos := s.nanos / 10, carry := if lastD = 10 then s.carry else 0 }
  let lastD := if lastD = 10 then 0 else lastD
  if i < prec then
    if !s.ln0set && lastD = 0 then .ok s
    else do
      let buf ← bufWrite s.buf i (digitChar lastD)
      return { s with ln0 := if !s.ln0set then i else s.ln0, ln0set := true, buf := buf }
  else if prec < i then .ok s
  else .ok { s with carry := if 4 < lastD then 1 else 0 }

-- The iterations for `i - 1`, …, `0`.
def prcLoop (prec : ℕ) : ℕ → Prc → Except BufError Prc
  | 0, s => .ok s
  | i + 1, s => prcStep prec i s >>= prcLoop prec i

/-- `prc` on a fresh object; the text is read off the buffer. -/
def prc (nanos prec : ℕ) : Except BufError (List Char × ℕ) := do
  let buf := List.replicate 10 none
  if prec = 0 ∨ nanos = 0 then
    let buf ← bufWrite buf 0 '\x00'
    return (← bufText buf, 0)
  else
    let s ← prcLoop prec 9 ⟨nanos, 0, 0, false, buf⟩
    let buf ← bufWrite s.buf (if !s.ln0set then 0 else s.ln0 + 1) '\x00'
    return (← bufText buf, s.carry)

/-! ### Digits -/

theorem decimal_cons (c : Char) (ds : List Char) :
    decimal (c :: ds) = (c.toNat - '0'.toNat) * 10 ^ ds.length + decimal ds := by
  rw [decimal_eq_ofDigitChars, decimal_eq_ofDigitChars, Nat.ofDigitChars_cons,
    Nat.ofDigitChars_eq_ofDigitChars_zero, Nat.mul_zero, Nat.zero_add, Nat.mul_comm]

theorem digitChar_spec {d : ℕ} (h : d < 10) :
    (digitChar d).isDigit = true ∧ (digitChar d).toNat - '0'.toNat = d ∧ digitChar d ≠ '\x00' ∧
      (digitChar d = '0' ↔ d = 0) := by
  revert d
  decide

/-! ### The rounded value -/

/-- The digits of `n` from position `j` on, rounded to `p` digits in all; `half` is half a unit of
the last one. -/
def rounded (n p half j : ℕ) : ℕ := (n % 10 ^ (9 - j) + half) / 10 ^ (9 - p)

theorem rounded_step (n half : ℕ) {p i : ℕ} (hi : i < p) (hp : p ≤ 9) :
    rounded n p half i =
      rounded n p half (i + 1) + n / 10 ^ (9 - (i + 1)) % 10 * 10 ^ (p - (i + 1)) := by
  have hexp : 9 - i = 9 - (i + 1) + 1 := by omega
  have hsplit : 10 ^ (9 - (i + 1)) = 10 ^ (9 - p) * 10 ^ (p - (i + 1)) := by
    rw [← pow_add]
    congr 1
    omega
  have hmod : n % 10 ^ (9 - i) =
      n % 10 ^ (9 - (i + 1)) + 10 ^ (9 - (i + 1)) * (n / 10 ^ (9 - (i + 1)) % 10) := by
    rw [hexp, pow_succ, Nat.mod_mul]
  unfold rounded
  rw [hmod]
  calc (n % 10 ^ (9 - (i + 1)) + 10 ^ (9 - (i + 1)) * (n / 10 ^ (9 - (i + 1)) % 10) + half) /
        10 ^ (9 - p)
      = (n % 10 ^ (9 - (i + 1)) + half + 10 ^ (9 - p) *
          (n / 10 ^ (9 - (i + 1)) % 10 * 10 ^ (p - (i + 1)))) / 10 ^ (9 - p) := by
        congr 1
        rw [hsplit]
        ring
    _ = (n % 10 ^ (9 - (i + 1)) + half) / 10 ^ (9 - p) +
          n / 10 ^ (9 - (i + 1)) % 10 * 10 ^ (p - (i + 1)) :=
        Nat.add_mul_div_left _ _ (Nat.pow_pos (by omega))

/-! ### The loop -/

/-- The state when the digits from position `j` on are done, and the text they have become. -/
structure PrcInv (n p half j : ℕ) (s : Prc) (ds : List Char) : Prop where
  nanos : s.nanos = n / 10 ^ (9 - j)
  carry : s.carry ≤ 1
  buf : s.buf.length = 10
  written : ∃ rest, s.buf.drop j = ds.map some ++ rest
  set : s.ln0set = true ↔ ds ≠ []
  ln0 : s.ln0set = true → s.ln0 + 1 = j + ds.length
  length : j + ds.length ≤ p
  digits : ∀ c ∈ ds, c.isDigit = true ∧ c ≠ '\x00'
  last : ds.getLast? ≠ some '0'
  value : decimal ds * 10 ^ (p - (j + ds.length)) + s.carry * 10 ^ (p - j) = rounded n p half j

theorem PrcInv.nil {n p half j : ℕ} {s : Prc} {ds : List Char} (h : PrcInv n p half j s ds)
    (hset : s.ln0set = false) : ds = [] := by
  by_contra hne
  have htrue := h.set.mpr hne
  rw [hset] at htrue
  cases htrue

/-- The digit that an iteration produces, and the carry it leaves. -/
theorem digit_carry (d carry : ℕ) (hd : d < 10) (hcarry : carry ≤ 1) :
    ∃ digit carry', digit < 10 ∧ carry' ≤ 1 ∧ digit + 10 * carry' = d + carry ∧
      (if d + carry = 10 then 0 else d + carry) = digit ∧
      (if d + carry = 10 then carry else 0) = carry' := by
  by_cases h : d + carry = 10
  · exact ⟨0, carry, by omega, hcarry, by omega, if_pos h, if_pos h⟩
  · exact ⟨d + carry, 0, by omega, by omega, by omega, if_neg h, if_neg h⟩

theorem div_digits {i : ℕ} (n : ℕ) (hi : i < 9) :
    n / 10 ^ (9 - i) = n / 10 ^ (9 - (i + 1)) / 10 := by
  have hexp : 9 - i = 9 - (i + 1) + 1 := by omega
  rw [hexp, pow_succ, Nat.div_div_eq_div_mul]

/-- A digit and its carry add to the rounded value what the digit of `n` and the old carry do. -/
theorem rounded_carried {n p half i nanos carry digit carry' : ℕ} (hip : i < p) (hp : p ≤ 9)
    (hnanos : nanos = n / 10 ^ (9 - (i + 1))) (hsum : digit + 10 * carry' = nanos % 10 + carry) :
    digit * 10 ^ (p - (i + 1)) + carry' * 10 ^ (p - i) + rounded n p half (i + 1) =
      rounded n p half i + carry * 10 ^ (p - (i + 1)) := by
  have hpow : 10 ^ (p - i) = 10 * 10 ^ (p - (i + 1)) := by
    have hexp : p - i = p - (i + 1) + 1 := by omega
    rw [hexp, pow_succ]
    ring
  rw [rounded_step n half hip hp, ← hnanos, hpow]
  calc digit * 10 ^ (p - (i + 1)) + carry' * (10 * 10 ^ (p - (i + 1))) + rounded n p half (i + 1)
      = rounded n p half (i + 1) + (digit + 10 * carry') * 10 ^ (p - (i + 1)) := by ring
    _ = rounded n p half (i + 1) + (nanos % 10 + carry) * 10 ^ (p - (i + 1)) := by rw [hsum]
    _ = rounded n p half (i + 1) + nanos % 10 * 10 ^ (p - (i + 1)) +
          carry * 10 ^ (p - (i + 1)) := by ring

/-- A digit written in front of `ds`, both scaled to `p` digits. -/
theorem decimal_digit_cons {digit i p : ℕ} {ds : List Char} (hdigit : digit < 10)
    (h : i + 1 + ds.length ≤ p) :
    decimal (digitChar digit :: ds) * 10 ^ (p - (i + (ds.length + 1))) =
      digit * 10 ^ (p - (i + 1)) + decimal ds * 10 ^ (p - (i + 1 + ds.length)) := by
  obtain ⟨_, htoNat, _, _⟩ := digitChar_spec hdigit
  have hexp : p - (i + (ds.length + 1)) = p - (i + 1 + ds.length) := by omega
  have hsplit : 10 ^ (p - (i + 1)) = 10 ^ ds.length * 10 ^ (p - (i + 1 + ds.length)) := by
    rw [← pow_add]
    congr 1
    omega
  rw [decimal_cons, htoNat, hexp, hsplit]
  ring

section

variable {n p half i digit carry' : ℕ} {s : Prc} {ds : List Char}

theorem PrcInv.skipZero (hip : i < p) (hp : p ≤ 9) (h : PrcInv n p half (i + 1) s [])
    (hset : s.ln0set = false) (hcarry' : carry' ≤ 1)
    (hsum : 0 + 10 * carry' = s.nanos % 10 + s.carry) :
    PrcInv n p half i { s with nanos := s.nanos / 10, carry := carry' } [] := by
  have hvalue := h.value
  have hcarried : 0 * 10 ^ (p - (i + 1)) + carry' * 10 ^ (p - i) + rounded n p half (i + 1) =
      rounded n p half i + s.carry * 10 ^ (p - (i + 1)) := rounded_carried hip hp h.nanos hsum
  exact
    { nanos := by rw [div_digits n (by omega), ← h.nanos]
      carry := hcarry'
      buf := h.buf
      written := ⟨_, rfl⟩
      set := iff_of_false (by rw [hset]; simp) (by simp)
      ln0 := by
        intro htrue
        rw [hset] at htrue
        cases htrue
      length := by
        show i + 0 ≤ p
        omega
      digits := h.digits
      last := by simp
      value := by
        have hnil : decimal ([] : List Char) = 0 := rfl
        rw [hnil, Nat.zero_mul, Nat.zero_add] at hvalue ⊢
        show carry' * 10 ^ (p - i) = _
        omega }

theorem PrcInv.writeDigit (hip : i < p) (hp : p ≤ 9) (h : PrcInv n p half (i + 1) s ds)
    (hdigit : digit < 10) (hcarry' : carry' ≤ 1)
    (hsum : digit + 10 * carry' = s.nanos % 10 + s.carry)
    (hwrite : s.ln0set = false → digit ≠ 0) :
    PrcInv n p half i
      ⟨s.nanos / 10, carry', if !s.ln0set then i else s.ln0, true,
        s.buf.set i (some (digitChar digit))⟩ (digitChar digit :: ds) := by
  have hvalue := h.value
  have hlength := h.length
  have hcarried : digit * 10 ^ (p - (i + 1)) + carry' * 10 ^ (p - i) + rounded n p half (i + 1) =
      rounded n p half i + s.carry * 10 ^ (p - (i + 1)) := rounded_carried hip hp h.nanos hsum
  obtain ⟨hisDigit, _, hnul, hzero⟩ := digitChar_spec hdigit
  obtain ⟨rest, hrest⟩ := h.written
  have hlt : i < (s.buf.set i (some (digitChar digit))).length := by
    rw [List.length_set, h.buf]
    omega
  exact
    { nanos := by rw [div_digits n (by omega), ← h.nanos]
      carry := hcarry'
      buf := by
        show (s.buf.set i _).length = 10
        rw [List.length_set, h.buf]
      written := by
        refine ⟨rest, ?_⟩
        show (s.buf.set i _).drop i = _
        rw [List.drop_eq_getElem_cons hlt, List.getElem_set_self,
          List.drop_set_of_lt (Nat.lt_succ_self i), hrest]
        rfl
      set := iff_of_true rfl (List.cons_ne_nil _ _)
      ln0 := by
        intro _
        show (if !s.ln0set then i else s.ln0) + 1 = i + (ds.length + 1)
        cases hset : s.ln0set with
        | true =>
          have hln0 := h.ln0 hset
          simp only [Bool.not_true, Bool.false_eq_true, if_false]
          omega
        | false =>
          rw [h.nil hset]
          rfl
      length := by
        show i + (ds.length + 1) ≤ p
        omega
      digits := by
        intro c hc
        rcases List.mem_cons.mp hc with rfl | hc
        · exact ⟨hisDigit, hnul⟩
        · exact h.digits c hc
      last := by
        cases ds with
        | nil =>
          have hset : s.ln0set = false := by
            rw [← Bool.not_eq_true]
            exact fun htrue => h.set.mp htrue rfl
          intro hlast
          exact hwrite hset (hzero.mp (Option.some.inj hlast))
        | cons c ds =>
          rw [List.getLast?_cons_cons]
          exact h.last
      value := by
        show decimal (digitChar digit :: ds) * 10 ^ (p - (i + (ds.length + 1))) +
          carry' * 10 ^ (p - i) = _
        rw [decimal_digit_cons hdigit hlength]
        omega }

end

theorem prcStep_digit {n p prec half i : ℕ} {s : Prc} {ds : List Char} (hi : i < prec) (hip : i < p)
    (hp : p ≤ 9) (h : PrcInv n p half (i + 1) s ds) :
    ∃ s' ds', prcStep prec i s = .ok s' ∧ PrcInv n p half i s' ds' := by
  obtain ⟨digit, carry', hdigit, hcarry', hsum, hlastD, hleft⟩ :=
    digit_carry (s.nanos % 10) s.carry (Nat.mod_lt _ (by omega)) h.carry
  unfold prcStep
  simp only [hlastD, hleft, if_pos hi]
  by_cases hskip : s.ln0set = false ∧ digit = 0
  · -- a trailing zero
    obtain ⟨hset, rfl⟩ := hskip
    have hds := h.nil hset
    subst hds
    have hguard : (!s.ln0set && decide (0 = 0)) = true := by
      rw [hset]
      rfl
    rw [if_pos hguard]
    exact ⟨_, [], rfl, h.skipZero hip hp hset hcarry' hsum⟩
  · have hguard : ¬ (!s.ln0set && decide (digit = 0)) = true := by
      rw [Bool.and_eq_true, Bool.not_eq_true', decide_eq_true_eq]
      exact hskip
    have hwrite : bufWrite s.buf i (digitChar digit) = .ok (s.buf.set i (some (digitChar digit))) :=
      if_pos (by rw [h.buf]; omega)
    rw [if_neg hguard, hwrite]
    exact ⟨_, digitChar digit :: ds, rfl,
      h.writeDigit hip hp hdigit hcarry' hsum fun hset hzero => hskip ⟨hset, hzero⟩⟩

theorem prcLoop_digits {n p prec half : ℕ} (hprec : p ≤ prec) (hp : p ≤ 9) (j : ℕ) {s : Prc}
    {ds : List Char} (hj : j ≤ p) (h : PrcInv n p half j s ds) :
    ∃ s' ds', prcLoop prec j s = .ok s' ∧ PrcInv n p half 0 s' ds' := by
  induction j generalizing s ds with
  | zero => exact ⟨s, ds, rfl, h⟩
  | succ i ih =>
    have hip : i < p := hj
    obtain ⟨s₁, ds₁, hstep, h₁⟩ := prcStep_digit (lt_of_lt_of_le hip hprec) hip hp h
    obtain ⟨s', ds', hloop, h'⟩ := ih hip.le h₁
    refine ⟨s', ds', ?_, h'⟩
    unfold prcLoop
    rw [hstep]
    exact hloop

/-- The digits beyond the one that decides about the rounding are dropped. -/
theorem prcLoop_dropped (prec k nanos : ℕ) (buf : List (Option Char)) :
    prcLoop prec (prec + 1 + k) ⟨nanos, 0, 0, false, buf⟩ =
      prcLoop prec (prec + 1) ⟨nanos / 10 ^ k, 0, 0, false, buf⟩ := by
  induction k generalizing nanos with
  | zero => simp
  | succ k ih =>
    have hstep : prcStep prec (prec + 1 + k) ⟨nanos, 0, 0, false, buf⟩ =
        .ok ⟨nanos / 10, 0, 0, false, buf⟩ := by
      unfold prcStep
      rw [if_neg (by omega), if_pos (by omega)]
      simp
    show prcStep prec (prec + 1 + k) _ >>= prcLoop prec (prec + 1 + k) = _
    rw [hstep]
    show prcLoop prec (prec + 1 + k) _ = _
    rw [ih, Nat.div_div_eq_div_mul, pow_succ, Nat.mul_comm]

theorem prcStep_round (prec nanos : ℕ) (buf : List (Option Char)) :
    prcStep prec prec ⟨nanos, 0, 0, false, buf⟩ =
      .ok ⟨nanos / 10, if 4 < nanos % 10 then 1 else 0, 0, false, buf⟩ := by
  have hlt := Nat.mod_lt nanos (show 0 < 10 by omega)
  have hne : ¬ nanos % 10 = 10 := by omega
  unfold prcStep
  simp only [Nat.add_zero, hne, if_false, lt_irrefl]

/-! ### The result -/

def halfUnit (p : ℕ) : ℕ := if p < 9 then 5 * 10 ^ (8 - p) else 0

/-- `ds` and `carry` are the low nine digits of `n`, rounded half up to `p` digits. -/
structure Rounds (n p : ℕ) (ds : List Char) (carry : ℕ) : Prop where
  carry_le : carry ≤ 1
  length : ds.length ≤ p
  digits : ∀ c ∈ ds, c.isDigit = true
  last : ds.getLast? ≠ some '0'
  value : decimal ds * 10 ^ (p - ds.length) + carry * 10 ^ p =
    (n % 10 ^ 9 + halfUnit p) / 10 ^ (9 - p)

theorem bufText_digits {ds : List Char} (rest : List (Option Char)) (h : ∀ c ∈ ds, c ≠ '\x00') :
    bufText (ds.map some ++ some '\x00' :: rest) = .ok ds := by
  induction ds with
  | nil => rfl
  | cons c ds ih =>
    have htail := ih fun c' hc' => h c' (List.mem_cons_of_mem c hc')
    show (if c = '\x00' then _ else (c :: ·) <$> bufText (ds.map some ++ some '\x00' :: rest)) = _
    rw [if_neg (h c List.mem_cons_self), htail]
    rfl

theorem roundingDigit {n p : ℕ} (hp : p < 9) :
    (if 4 < n / 10 ^ (8 - p) % 10 then 1 else 0) = rounded n p (halfUnit p) p := by
  have hexp : 9 - p = 8 - p + 1 := by omega
  have hpos : 0 < 10 ^ (8 - p) := Nat.pow_pos (by omega)
  have hlow := Nat.mod_lt n hpos
  have hdigit := Nat.mod_lt (n / 10 ^ (8 - p)) (show 0 < 10 by omega)
  have hsum : n % 10 ^ (9 - p) + 5 * 10 ^ (8 - p) =
      n % 10 ^ (8 - p) + 10 ^ (8 - p) * (n / 10 ^ (8 - p) % 10 + 5) := by
    rw [hexp, pow_succ, Nat.mod_mul]
    ring
  have hrounded : rounded n p (halfUnit p) p = (n / 10 ^ (8 - p) % 10 + 5) / 10 := by
    unfold rounded halfUnit
    rw [if_pos hp, hsum, hexp, pow_succ, ← Nat.div_div_eq_div_mul,
      Nat.add_mul_div_left _ _ hpos, Nat.div_eq_of_lt hlow, Nat.zero_add]
  rw [hrounded]
  split_ifs <;> omega

/-- Before the first digit that is kept. -/
theorem prcInv_start {n p carry : ℕ} (hcarry : carry ≤ 1)
    (hvalue : carry = rounded n p (halfUnit p) p) :
    PrcInv n p (halfUnit p) p ⟨n / 10 ^ (9 - p), carry, 0, false, List.replicate 10 none⟩ [] :=
  { nanos := rfl
    carry := hcarry
    buf := List.length_replicate
    written := ⟨_, rfl⟩
    set := iff_of_false (by simp) (by simp)
    ln0 := by
      intro htrue
      cases htrue
    length := le_rfl
    digits := by simp
    last := by simp
    value := by
      have hnil : decimal ([] : List Char) = 0 := rfl
      rw [hnil, Nat.zero_mul, Nat.zero_add, Nat.sub_self, pow_zero, Nat.mul_one]
      exact hvalue }

theorem prcLoop_spec (n prec : ℕ) :
    ∃ s ds, prcLoop prec 9 ⟨n, 0, 0, false, List.replicate 10 none⟩ = .ok s ∧
      PrcInv n (min prec 9) (halfUnit (min prec 9)) 0 s ds := by
  by_cases h9 : prec < 9
  · have hmin : min prec 9 = prec := by omega
    have hround : prcLoop prec 9 ⟨n, 0, 0, false, List.replicate 10 none⟩ =
        prcLoop prec prec ⟨n / 10 ^ (9 - prec),
          if 4 < n / 10 ^ (8 - prec) % 10 then 1 else 0, 0, false, List.replicate 10 none⟩ := by
      have hnine : prec + 1 + (8 - prec) = 9 := by omega
      have hexp : 9 - prec = 8 - prec + 1 := by omega
      have hdropped := prcLoop_dropped prec (8 - prec) n (List.replicate 10 none)
      rw [hnine] at hdropped
      rw [hdropped]
      show prcStep prec prec _ >>= prcLoop prec prec = _
      rw [prcStep_round, Nat.div_div_eq_div_mul, hexp, pow_succ]
      rfl
    have hcarry : (if 4 < n / 10 ^ (8 - prec) % 10 then 1 else 0) ≤ 1 := by
      split_ifs <;> omega
    rw [hround, hmin]
    exact prcLoop_digits le_rfl h9.le prec le_rfl (prcInv_start hcarry (roundingDigit h9))
  · have hmin : min prec 9 = 9 := by omega
    have hvalue : 0 = rounded n 9 (halfUnit 9) 9 := by
      have hhalf : halfUnit 9 = 0 := rfl
      unfold rounded
      rw [hhalf, Nat.sub_self, pow_zero, Nat.mod_one, Nat.div_one]
    have hstart := prcInv_start (Nat.zero_le 1) hvalue
    rw [Nat.sub_self, pow_zero, Nat.div_one] at hstart
    rw [hmin]
    exact prcLoop_digits (by omega) le_rfl 9 le_rfl hstart

theorem rounds_zero (p : ℕ) (hp : p ≤ 9) : Rounds 0 p [] 0 := by
  have hhalf : halfUnit p < 10 ^ (9 - p) := by
    unfold halfUnit
    split_ifs with h9
    · have hexp : 9 - p = 8 - p + 1 := by omega
      have hpos : 0 < 10 ^ (8 - p) := Nat.pow_pos (by omega)
      rw [hexp, pow_succ]
      omega
    · exact Nat.pow_pos (by omega)
  have hnil : decimal ([] : List Char) = 0 := rfl
  exact
    { carry_le := by omega
      length := Nat.zero_le p
      digits := by simp
      last := by simp
      value := by
        rw [Nat.zero_mod, Nat.zero_add, Nat.div_eq_of_lt hhalf, hnil, Nat.zero_mul, Nat.zero_mul] }

theorem PrcInv.rounds {n p : ℕ} {s : Prc} {ds : List Char} (h : PrcInv n p (halfUnit p) 0 s ds) :
    Rounds n p ds s.carry :=
  { carry_le := h.carry
    length := by
      have hlength := h.length
      omega
    digits := fun c hc => (h.digits c hc).1
    last := h.last
    value := by
      have hvalue := h.value
      rw [Nat.zero_add] at hvalue
      exact hvalue }

theorem prc_spec (n : ℕ) {prec : ℕ} (hprec : 1 ≤ prec) :
    ∃ ds carry, prc n prec = .ok (ds, carry) ∧ Rounds n (min prec 9) ds carry := by
  by_cases hn : n = 0
  · subst hn
    refine ⟨[], 0, ?_, rounds_zero _ (by omega)⟩
    unfold prc
    rw [if_pos (Or.inr rfl)]
    rfl
  · obtain ⟨s, ds, hloop, hinv⟩ := prcLoop_spec n prec
    have hlength := hinv.length
    obtain ⟨rest, hrest⟩ := hinv.written
    rw [List.drop_zero] at hrest
    have hend : (if !s.ln0set then 0 else s.ln0 + 1) = ds.length := by
      cases hset : s.ln0set with
      | true =>
        have hln0 := hinv.ln0 hset
        simp only [Bool.not_true, Bool.false_eq_true, if_false]
        omega
      | false =>
        rw [hinv.nil hset]
        rfl
    have hwrite : bufWrite s.buf ds.length '\x00' = .ok (s.buf.set ds.length (some '\x00')) :=
      if_pos (by rw [hinv.buf]; omega)
    have hset : s.buf.set ds.length (some '\x00') = ds.map some ++ some '\x00' :: rest.tail := by
      have hbuf := hinv.buf
      rw [hrest, List.length_append, List.length_map] at hbuf
      cases rest with
      | nil =>
        rw [List.length_nil] at hbuf
        omega
      | cons c rest =>
        rw [hrest, List.set_append_right _ _ (by rw [List.length_map]), List.length_map,
          Nat.sub_self]
        rfl
    refine ⟨ds, s.carry, ?_, hinv.rounds⟩
    unfold prc
    rw [if_neg (by omega), hloop]
    show (do
      let buf ← bufWrite s.buf (if !s.ln0set then 0 else s.ln0 + 1) '\x00'
      return (← bufText buf, s.carry)) = _
    rw [hend, hwrite, hset]
    show (do return (← bufText _, s.carry)) = _
    rw [bufText_digits _ fun c hc => (hinv.digits c hc).2]
    rfl

/-! ### Rounding half up -/

theorem round_natCast_div (n : ℕ) {d : ℕ} (hd : 0 < d) :
    round ((n : ℚ) / d) = ((2 * n + d) / (2 * d) : ℕ) := by
  have hne : (d : ℚ) ≠ 0 := by
    rw [Nat.cast_ne_zero]
    omega
  have hhalf : (n : ℚ) / d + 1 / 2 = ((2 * n + d : ℕ) : ℚ) / (2 * d : ℕ) := by
    push_cast
    field_simp
  rw [round_eq, hhalf, Rat.floor_natCast_div_natCast]
  rfl

/-- `n` nanoseconds, rounded half up to `p` digits after the point. -/
def roundedNanos (n p : ℕ) : ℤ := round ((n : ℚ) / (10 ^ (9 - p) : ℕ)) * 10 ^ (9 - p)

theorem roundedNanos_eq (n : ℕ) {p : ℕ} (hp : p ≤ 9) :
    roundedNanos n p = ((n + halfUnit p) / 10 ^ (9 - p) * 10 ^ (9 - p) : ℕ) := by
  have hpos : 0 < 10 ^ (9 - p) := Nat.pow_pos (by omega)
  have hdiv : (2 * n + 10 ^ (9 - p)) / (2 * 10 ^ (9 - p)) = (n + halfUnit p) / 10 ^ (9 - p) := by
    unfold halfUnit
    split_ifs with h9
    · have hexp : 9 - p = 8 - p + 1 := by omega
      have hdouble : 2 * n + 10 ^ (9 - p) = 2 * (n + 5 * 10 ^ (8 - p)) := by
        rw [hexp, pow_succ]
        ring
      rw [hdouble, Nat.mul_div_mul_left _ _ (by omega)]
    · have hnine : p = 9 := by omega
      rw [hnine, Nat.sub_self, pow_zero]
      omega
  unfold roundedNanos
  rw [round_natCast_div n hpos, hdiv]
  push_cast
  rfl

theorem decimal_append_zeros (ds : List Char) (k : ℕ) :
    decimal (ds ++ List.replicate k '0') = decimal ds * 10 ^ k := by
  induction k with
  | zero => simp
  | succ k ih =>
    have hzero : ∀ m, digitStep m '0' = m * 10 := fun _ => rfl
    have hlast : decimal (ds ++ List.replicate (k + 1) '0') =
        digitStep (decimal (ds ++ List.replicate k '0')) '0' := by
      rw [List.replicate_succ', ← List.append_assoc]
      unfold decimal
      rw [List.foldl_append]
      rfl
    rw [hlast, hzero, ih, pow_succ, Nat.mul_assoc]

/-- The text and the carry are the rounded number. -/
theorem prc_exact {n prec : ℕ} (hn : n < 10 ^ 9) (hprec : 1 ≤ prec) :
    ∃ ds carry, prc n prec = .ok (ds, carry) ∧
      ((carry * 10 ^ 9 + decimal (ds ++ List.replicate (9 - ds.length) '0') : ℕ) : ℤ) =
        roundedNanos n (min prec 9) ∧
      carry ≤ 1 ∧ ds.length ≤ min prec 9 ∧ (∀ c ∈ ds, c.isDigit = true) ∧
      ds.getLast? ≠ some '0' := by
  obtain ⟨ds, carry, hprc, hrounds⟩ := prc_spec n hprec
  obtain ⟨p, hp⟩ : ∃ p, p = min prec 9 := ⟨_, rfl⟩
  rw [← hp] at hrounds ⊢
  have hnine : p ≤ 9 := by omega
  have hlength := hrounds.length
  have hvalue := hrounds.value
  rw [Nat.mod_eq_of_lt hn] at hvalue
  refine ⟨ds, carry, hprc, ?_, hrounds.carry_le, hlength, hrounds.digits, hrounds.last⟩
  have hdigits : 10 ^ (9 - ds.length) = 10 ^ (p - ds.length) * 10 ^ (9 - p) := by
    rw [← pow_add]
    congr 1
    omega
  have hunits : 10 ^ 9 = 10 ^ p * 10 ^ (9 - p) := by
    rw [← pow_add]
    congr 1
    omega
  rw [roundedNanos_eq n hnine, decimal_append_zeros, ← hvalue, hdigits, hunits]
  congr 1
  ring

theorem prc_exact_example :
    ∃ ds carry, prc 999500000 3 = .ok (ds, carry) ∧
      ((carry * 10 ^ 9 + decimal (ds ++ List.replicate (9 - ds.length) '0') : ℕ) : ℤ) =
        roundedNanos 999500000 (min 3 9) ∧
      carry ≤ 1 ∧ ds.length ≤ min 3 9 ∧ (∀ c ∈ ds, c.isDigit = true) ∧
      ds.getLast? ≠ some '0' :=
  prc_exact (by decide) (by decide)

example : prc 123456789 6 = .ok ("123457".toList, 0) := by decide

example : prc 999500000 3 = .ok ([], 1) := by decide

end NanosText

end Pimc
