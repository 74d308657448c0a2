import Pimc.Parsers.NumberParsers

/-!
# What the signed parsers accept

Behind a minus sign the accumulator may reach the most negative value, which is
below every "last step" number: ten times that value is zero in the type, so the
next digit starts the number anew. `Cut lim ds n` says what the loop makes of
the digits then.
-/

namespace Pimc

/-! ### The notation -/

/-- `cs` is a sign, or none, in front of the digits `ds`. -/
def SignedForm (cs : List Char) (negative : Bool) (ds : List Char) : Prop :=
  Digits ds ∧ ((negative = true ∧ cs = '-' :: ds) ∨
    (negative = false ∧ (cs = '+' :: ds ∨ cs = ds)))

def signedValue (negative : Bool) (ds : List Char) : ℤ :=
  if negative then -(decimal ds : ℤ) else decimal ds

def InRange (w : ℕ) (x : ℤ) : Prop := -2 ^ (w - 1) ≤ x ∧ x ≤ 2 ^ (w - 1) - 1

/-- The result is the value of the number, or the reason why there is none. -/
structure ParsesSigned {w : ℕ} (r : Except NumberParseError (BitVec w)) (cs : List Char) :
    Prop where
  invalid : r = .error .Invalid ↔ ¬ ∃ negative ds, SignedForm cs negative ds
  overflow : r = .error .Overflow ↔
    ∃ negative ds, SignedForm cs negative ds ∧ ¬ InRange w (signedValue negative ds)
  value : ∀ x, r = .ok x ↔
    ∃ negative ds, SignedForm cs negative ds ∧ x.toInt = signedValue negative ds

theorem signedForm_unique {cs ds ds' : List Char} {negative negative' : Bool}
    (h : SignedForm cs negative ds) (h' : SignedForm cs negative' ds') :
    negative = negative' ∧ ds = ds' := by
  have hsign : ∀ (c : Char) (xs ys : List Char), c.isDigit = false → Digits ys → c :: xs ≠ ys := by
    intro c xs ys hc hys hcase
    subst hcase
    have hdigit := hys.2 c List.mem_cons_self
    rw [hc] at hdigit
    cases hdigit
  obtain ⟨hds, ⟨rfl, rfl⟩ | ⟨rfl, rfl | rfl⟩⟩ := h <;>
  obtain ⟨hds', ⟨rfl, h⟩ | ⟨rfl, h | h⟩⟩ := h'
  · exact ⟨rfl, (List.cons.inj h).2⟩
  · cases (List.cons.inj h).1
  · exact absurd h (hsign _ _ _ rfl hds')
  · cases (List.cons.inj h).1
  · exact ⟨rfl, (List.cons.inj h).2⟩
  · exact absurd h (hsign _ _ _ rfl hds')
  · exact absurd h.symm (hsign _ _ _ rfl hds)
  · exact absurd h.symm (hsign _ _ _ rfl hds)
  · exact ⟨rfl, h⟩

/-! ### What the loop makes of the digits -/

section Cut

variable {half lim : ℕ}

/-- `ds` is a number `n` of at most `lim`, behind any number of blocks with the value `half`. -/
def Cut (half lim : ℕ) (ds : List Char) (n : ℕ) : Prop :=
  ∃ (blocks : List (List Char)) (last : List Char), ds = blocks.flatten ++ last ∧
    (∀ b ∈ blocks, decimal b = half ∧ half ≤ lim) ∧ (blocks ≠ [] → last ≠ []) ∧
    decimal last = n ∧ n ≤ lim

theorem cut_nil_iff {n : ℕ} : Cut half lim [] n ↔ n = 0 := by
  apply Iff.intro
  · intro h
    obtain ⟨blocks, last, hds, _, _, rfl, _⟩ := h
    rw [(List.append_eq_nil_iff.mp hds.symm).2]
    rfl
  · intro h
    subst h
    exact ⟨[], [], rfl, by simp, by simp, rfl, Nat.zero_le _⟩

/-- The number starts anew with the digit behind the value `half`. -/
theorem cut_snoc_iff (hhalf : 0 < half) (hten : 10 ≤ lim) (hlim : lim ≤ half) {ds : List Char}
    {c : Char} (hc : c.isDigit = true) {n : ℕ} :
    Cut half lim (ds ++ [c]) n ↔ ∃ m, Cut half lim ds m ∧
      ((m = half ∧ n = c.toNat - '0'.toNat) ∨
        (m ≠ half ∧ n = m * 10 + (c.toNat - '0'.toNat) ∧ n ≤ lim)) := by
  have hdigit := digit_le hc
  apply Iff.intro
  · intro h
    obtain ⟨blocks, last, hds, hblocks, hlast, rfl, hle⟩ := h
    rcases List.eq_nil_or_concat last with rfl | ⟨l, d, rfl⟩
    · have hnone : blocks = [] := by
        by_contra hne
        exact hlast hne rfl
      rw [hnone] at hds
      simp at hds
    · rw [List.concat_eq_append] at hds hlast hle ⊢
      rw [← List.append_assoc] at hds
      obtain ⟨rfl, hd⟩ := List.append_inj' hds rfl
      cases hd
      rw [decimal_snoc] at hle ⊢
      by_cases hl : l = []
      · subst hl
        rcases List.eq_nil_or_concat blocks with rfl | ⟨bs, b, rfl⟩
        · exact ⟨0, cut_nil_iff.mpr rfl, Or.inr ⟨by omega, rfl, hle⟩⟩
        · rw [List.concat_eq_append] at hblocks ⊢
          have hb := hblocks b (by simp)
          refine ⟨half, ⟨bs, b, by simp, fun b' hb' => hblocks b' (by simp [hb']), ?_, hb.1, hb.2⟩,
            Or.inl ⟨rfl, by simp [decimal]⟩⟩
          intro _ h
          subst h
          have hzero : decimal [] = 0 := rfl
          omega
      · refine ⟨decimal l, ⟨blocks, l, rfl, hblocks, fun _ => hl, rfl, by omega⟩,
          Or.inr ⟨by omega, rfl, hle⟩⟩
  · intro h
    rcases h with ⟨m, ⟨blocks, last, rfl, hblocks, hlast, rfl, hle⟩, ⟨hm, rfl⟩ | ⟨hm, rfl, hn⟩⟩
    · refine ⟨blocks ++ [last], [c], by simp, ?_, by simp, ?_, by omega⟩
      · intro b hb
        rcases List.mem_append.mp hb with hb | hb
        · exact hblocks b hb
        · rw [List.mem_singleton.mp hb]
          exact ⟨hm, by omega⟩
      · have hsingle := decimal_snoc [] c
        rwa [List.nil_append, show decimal [] = 0 from rfl, Nat.zero_mul, Nat.zero_add] at hsingle
    · refine ⟨blocks, last ++ [c], by simp, hblocks, by simp, decimal_snoc last c, hn⟩

end Cut

/-! ### The accumulator -/

section Signed

variable {w : ℕ} {lastStep lastDigit : BitVec w}

/-- The "last step" number and a "last step" digit of a signed type. -/
structure SignedLastStep (lastStep lastDigit : BitVec w) : Prop where
  half : 2 ^ w = 2 * 2 ^ (w - 1)
  largest : 2 ^ (w - 1) = 10 * lastStep.toNat + 8
  wide : 2 ≤ lastStep.toNat
  digit : lastDigit.toNat ≤ 8

theorem toInt_eq (hhalf : 2 ^ w = 2 * 2 ^ (w - 1)) (x : BitVec w) :
    x.toInt = if x.toNat < 2 ^ (w - 1) then (x.toNat : ℤ) else x.toNat - 2 ^ w := by
  have hcond := BitVec.toInt_eq_toNat_cond x
  rw [hcond]
  push_cast
  split_ifs <;> omega

theorem slt_iff (hhalf : 2 ^ w = 2 * 2 ^ (w - 1)) {x y : BitVec w} (hx : x.toNat ≤ 2 ^ (w - 1))
    (hy : y.toNat < 2 ^ (w - 1)) :
    x.slt y = true ↔ x.toNat = 2 ^ (w - 1) ∨ x.toNat < y.toNat := by
  have hxint := toInt_eq hhalf x
  have hyint := toInt_eq hhalf y
  have hcast : (2 : ℤ) ^ w = ((2 ^ w : ℕ) : ℤ) := by push_cast; rfl
  rw [if_pos hy] at hyint
  rw [hcast] at hxint
  rw [BitVec.slt, decide_eq_true_eq, hxint, hyint]
  split_ifs <;> omega

theorem sle_iff (hhalf : 2 ^ w = 2 * 2 ^ (w - 1)) {x y : BitVec w} (hx : x.toNat < 2 ^ (w - 1))
    (hy : y.toNat < 2 ^ (w - 1)) : x.sle y = true ↔ x.toNat ≤ y.toNat := by
  have hxint := toInt_eq hhalf x
  have hyint := toInt_eq hhalf y
  rw [if_pos hx] at hxint
  rw [if_pos hy] at hyint
  rw [BitVec.sle, decide_eq_true_eq, hxint, hyint]
  omega

def SignedInv (lim : ℕ) (ds : List Char) (s : Bool × BitVec w) : Prop :=
  ∀ n, (s.1 = false ∧ s.2.toNat = n) ↔ Cut (2 ^ (w - 1)) lim ds n

theorem signedInv_step (hlast : SignedLastStep lastStep lastDigit) {ds : List Char}
    {s : Bool × BitVec w} (h : SignedInv (10 * lastStep.toNat + lastDigit.toNat) ds s) {c : Char}
    (hc : c.isDigit = true) : SignedInv (10 * lastStep.toNat + lastDigit.toNat) (ds ++ [c])
      (signedStep lastStep lastDigit s c) := by
  obtain ⟨hhalf, hlargest, hwide, hdigit⟩ := hlast
  obtain ⟨ovf, acc⟩ := s
  have hd := toNat_digitOf (show 10 < 2 ^ w by omega) hc
  have hnext := toNat_nextAcc (show 10 < 2 ^ w by omega) acc hc
  have hdle := digit_le hc
  intro n
  rw [cut_snoc_iff (by omega) (by omega) (by omega) hc]
  have hcut : ∀ m, Cut (2 ^ (w - 1)) (10 * lastStep.toNat + lastDigit.toNat) ds m ↔
      ovf = false ∧ acc.toNat = m := fun m => (h m).symm
  simp only [hcut]
  unfold signedStep
  cases ovf with
  | true => simp
  | false =>
    have hacc : acc.toNat ≤ 10 * lastStep.toNat + lastDigit.toNat := by
      obtain ⟨_, _, _, _, _, _, hle⟩ := (h acc.toNat).mp ⟨rfl, rfl⟩
      exact hle
    have hslt := slt_iff hhalf (x := acc) (y := lastStep) (by omega) (by omega)
    have hsle := sle_iff hhalf (x := digitOf w c) (y := lastDigit) (by omega) (by omega)
    have heq : acc = lastStep ↔ acc.toNat = lastStep.toNat := BitVec.toNat_inj.symm
    simp only [Bool.false_eq_true, if_false, true_and, exists_eq_left']
    split_ifs with hguard
    · rw [hslt, heq, hsle, hd] at hguard
      simp only [true_and]
      by_cases hmin : acc.toNat = 2 ^ (w - 1)
      · have hwrap : (acc * 10 + digitOf w c).toNat = c.toNat - '0'.toNat := by
          rw [hnext, hmin, show 2 ^ (w - 1) * 10 = 2 ^ w * 5 by omega, Nat.mul_add_mod,
            Nat.mod_eq_of_lt (by omega)]
        rw [hwrap]
        omega
      · rw [hnext, Nat.mod_eq_of_lt (by omega)]
        omega
    · rw [hslt, heq, hsle, hd] at hguard
      simp only [false_and, false_iff]
      omega

theorem signedInv_foldl (hlast : SignedLastStep lastStep lastDigit) {ds : List Char}
    (hds : ∀ c ∈ ds, c.isDigit = true) : SignedInv (10 * lastStep.toNat + lastDigit.toNat) ds
      (ds.foldl (signedStep lastStep lastDigit) (false, 0)) := by
  induction ds using List.reverseRecOn with
  | nil =>
    intro n
    rw [cut_nil_iff, List.foldl_nil]
    simp [eq_comm]
  | append_singleton ds c ih =>
    rw [List.foldl_append, List.foldl_cons, List.foldl_nil]
    have hinit := ih fun d hd => hds d (List.mem_append_left _ hd)
    exact signedInv_step hlast hinit (hds c (by simp))

/-! ### The result -/

instance (x : ℤ) : Decidable (InRange w x) := inferInstanceAs (Decidable (_ ∧ _))

/-- The result that a number in this notation asks for. -/
def signedResult (w : ℕ) (negative : Bool) (ds : List Char) :
    Except NumberParseError (BitVec w) :=
  if InRange w (signedValue negative ds) then .ok (BitVec.ofInt w (signedValue negative ds))
  else .error .Overflow

theorem exists_form_iff {cs ds : List Char} {negative : Bool} (h : SignedForm cs negative ds)
    (P : Bool → List Char → Prop) :
    (∃ negative' ds', SignedForm cs negative' ds' ∧ P negative' ds') ↔ P negative ds := by
  apply Iff.intro
  · intro hcase
    obtain ⟨negative', ds', h', hP⟩ := hcase
    obtain ⟨rfl, rfl⟩ := signedForm_unique h h'
    exact hP
  · intro hP
    exact ⟨negative, ds, h, hP⟩

theorem parsesSigned_iff (hw : 0 < w) {r : Except NumberParseError (BitVec w)}
    {cs ds : List Char} {negative : Bool} (h : SignedForm cs negative ds) :
    ParsesSigned r cs ↔ r = signedResult w negative ds := by
  unfold signedResult
  apply Iff.intro
  · intro hr
    split_ifs with hrange
    · rw [hr.value, exists_form_iff h fun n d => _ = signedValue n d]
      have hlt : signedValue negative ds < 2 ^ (w - 1) := Int.lt_of_le_sub_one hrange.2
      exact BitVec.toInt_ofInt_eq_self hw hrange.1 hlt
    · rw [hr.overflow, exists_form_iff h fun n d => ¬ InRange w (signedValue n d)]
      exact hrange
  · intro h'
    subst h'
    have hform : ∃ negative ds, SignedForm cs negative ds := ⟨negative, ds, h⟩
    refine ⟨?_, ?_, ?_⟩
    · rw [iff_false_right (not_not.mpr hform)]
      split_ifs <;> simp
    · rw [exists_form_iff h fun n d => ¬ InRange w (signedValue n d)]
      split_ifs with hrange <;> simp [hrange]
    · intro x
      rw [exists_form_iff h fun n d => x.toInt = signedValue n d]
      split_ifs with hrange
      · have hlt : signedValue negative ds < 2 ^ (w - 1) := Int.lt_of_le_sub_one hrange.2
        have hself := BitVec.toInt_ofInt_eq_self hw hrange.1 hlt
        rw [Except.ok.injEq, ← BitVec.toInt_inj, hself, eq_comm]
      · simp only [false_iff]
        intro hx
        apply hrange
        rw [← hx]
        have hle := BitVec.le_toInt x
        have hlt := BitVec.toInt_lt (x := x)
        exact ⟨hle, by omega⟩

theorem cut_below {half lim : ℕ} (hlim : lim < half) {ds : List Char} {n : ℕ} :
    Cut half lim ds n ↔ decimal ds = n ∧ n ≤ lim := by
  apply Iff.intro
  · intro h
    obtain ⟨blocks, last, rfl, hblocks, _, hn, hle⟩ := h
    cases blocks with
    | nil => exact ⟨hn, hle⟩
    | cons b blocks =>
      have hb := (hblocks b List.mem_cons_self).2
      omega
  · intro h
    obtain ⟨hn, hle⟩ := h
    exact ⟨[], ds, rfl, by simp, by simp, hn, hle⟩

theorem inRange_positive (ds : List Char) :
    InRange w (signedValue false ds) ↔ decimal ds < 2 ^ (w - 1) := by
  have hcast : (2 : ℤ) ^ (w - 1) = ((2 ^ (w - 1) : ℕ) : ℤ) := by push_cast; rfl
  unfold InRange signedValue
  rw [hcast]
  simp only [Bool.false_eq_true, if_false]
  omega

theorem inRange_negative (ds : List Char) :
    InRange w (signedValue true ds) ↔ decimal ds ≤ 2 ^ (w - 1) := by
  have hpos := Nat.two_pow_pos (w - 1)
  have hcast : (2 : ℤ) ^ (w - 1) = ((2 ^ (w - 1) : ℕ) : ℤ) := by push_cast; rfl
  unfold InRange signedValue
  rw [hcast]
  simp only [if_true]
  omega

theorem signedLoop_positive (hlast : SignedLastStep lastStep lastDigit)
    (hseven : lastDigit.toNat = 7) {ds : List Char} (hds : ∀ c ∈ ds, c.isDigit = true) :
    signedLoop lastStep lastDigit true (false, 0) ds = signedResult w false ds := by
  have hinv := signedInv_foldl hlast hds
  have hlargest := hlast.largest
  rw [signedLoop, digitLoop_digits hds, signedResult]
  generalize ds.foldl (signedStep lastStep lastDigit) (false, 0) = s at hinv ⊢
  obtain ⟨ovf, acc⟩ := s
  have hvalue : ∀ n, (ovf = false ∧ acc.toNat = n) ↔
      decimal ds = n ∧ n ≤ 10 * lastStep.toNat + lastDigit.toNat :=
    fun n => (hinv n).trans (cut_below (by omega))
  cases ovf with
  | true =>
    have hout : ¬ InRange w (signedValue false ds) := by
      rw [inRange_positive]
      intro hlt
      have hacc := (hvalue (decimal ds)).mpr ⟨rfl, by omega⟩
      cases hacc.1
    rw [if_neg hout]
    rfl
  | false =>
    obtain ⟨hdec, hle⟩ := (hvalue acc.toNat).mp ⟨rfl, rfl⟩
    have hin : InRange w (signedValue false ds) := by
      rw [inRange_positive]
      omega
    have hself : BitVec.ofInt w (signedValue false ds) = acc := by
      unfold signedValue
      rw [if_neg Bool.false_ne_true, BitVec.ofInt_natCast, hdec, BitVec.ofNat_toNat,
        BitVec.setWidth_eq]
    rw [if_pos hin, hself]
    rfl

/-- The digits fall into blocks with the value `half` and a last block of at most that. -/
def Restart (half : ℕ) (ds : List Char) : Prop :=
  ∃ (blocks : List (List Char)) (last : List Char), ds = blocks.flatten ++ last ∧ blocks ≠ [] ∧
    (∀ b ∈ blocks, decimal b = half) ∧ last ≠ [] ∧ decimal last ≤ half

theorem decimal_append_le (ds es : List Char) (hne : es ≠ []) :
    decimal ds * 10 ≤ decimal (ds ++ es) := by
  cases es with
  | nil => exact absurd rfl hne
  | cons e es =>
    have hge := foldl_digitStep_ge es (decimal (ds ++ [e]))
    rw [decimal_snoc] at hge
    have hsplit : decimal (ds ++ e :: es) = es.foldl digitStep (decimal (ds ++ [e])) := by
      rw [decimal, decimal, List.foldl_append, List.foldl_append]
      rfl
    rw [hsplit, decimal_snoc]
    omega

theorem restart_gt {half : ℕ} (hhalf : 0 < half) {ds : List Char} (h : Restart half ds) :
    half < decimal ds := by
  obtain ⟨blocks, last, rfl, hne, hblocks, hlast, _⟩ := h
  cases blocks with
  | nil => exact absurd rfl hne
  | cons b blocks =>
    have hb := hblocks b List.mem_cons_self
    have hrest : blocks.flatten ++ last ≠ [] := List.append_ne_nil_of_right_ne_nil _ hlast
    have hle := decimal_append_le b _ hrest
    rw [List.flatten_cons, List.append_assoc]
    omega

theorem cut_half_iff {half : ℕ} {ds : List Char} (hgt : half < decimal ds) :
    (∃ n, Cut half half ds n) ↔ Restart half ds := by
  apply Iff.intro
  · intro h
    obtain ⟨n, blocks, last, rfl, hblocks, hlast, rfl, hle⟩ := h
    have hne : blocks ≠ [] := by
      intro h
      subst h
      rw [List.flatten_nil, List.nil_append] at hgt
      omega
    exact ⟨blocks, last, rfl, hne, fun b hb => (hblocks b hb).1, hlast hne, hle⟩
  · intro h
    obtain ⟨blocks, last, rfl, _, hblocks, hlast, hle⟩ := h
    exact ⟨_, blocks, last, rfl, fun b hb => ⟨hblocks b hb, le_rfl⟩, fun _ => hlast, rfl, hle⟩

/-- Behind a minus sign the result is right unless the accumulator starts anew. -/
theorem signedLoop_negative (hlast : SignedLastStep lastStep lastDigit)
    (height : lastDigit.toNat = 8) {ds : List Char} (hds : ∀ c ∈ ds, c.isDigit = true) :
    signedLoop lastStep lastDigit false (false, 0) ds = signedResult w true ds ↔
      ¬ Restart (2 ^ (w - 1)) ds := by
  have hinv := signedInv_foldl hlast hds
  rw [height, ← hlast.largest] at hinv
  rw [signedLoop, digitLoop_digits hds, signedResult]
  generalize ds.foldl (signedStep lastStep lastDigit) (false, 0) = s at hinv ⊢
  obtain ⟨ovf, acc⟩ := s
  have hpos := Nat.two_pow_pos (w - 1)
  by_cases hle : decimal ds ≤ 2 ^ (w - 1)
  · have hnot : ¬ Restart (2 ^ (w - 1)) ds := fun h => by
      have hgt := restart_gt hpos h
      omega
    obtain ⟨rfl, hacc⟩ := (hinv (decimal ds)).mpr ⟨[], ds, rfl, by simp, by simp, rfl, hle⟩
    have hself : BitVec.ofInt w (signedValue true ds) = -acc := by
      have hofNat : BitVec.ofNat w acc.toNat = acc := by
        rw [BitVec.ofNat_toNat, BitVec.setWidth_eq]
      unfold signedValue
      rw [if_pos rfl, BitVec.ofInt_neg, BitVec.ofInt_natCast, ← hacc, hofNat]
    rw [if_pos ((inRange_negative ds).mpr hle), hself]
    exact iff_of_true rfl hnot
  · rw [if_neg (fun h => hle ((inRange_negative ds).mp h)), ← cut_half_iff (by omega)]
    cases ovf with
    | true =>
      refine iff_of_true rfl ?_
      intro h'
      obtain ⟨n, hcut⟩ := h'
      cases ((hinv n).mpr hcut).1
    | false =>
      refine iff_of_false (fun h => by cases h) (not_not.mpr ?_)
      exact ⟨acc.toNat, (hinv acc.toNat).mp ⟨rfl, rfl⟩⟩

/-! ### The parsers -/

/-- `cs` is a minus sign in front of two or more blocks of digits, each with the value
`2 ^ (w - 1)` except for the last, whose value is at most that. -/
def Restarts (w : ℕ) (cs : List Char) : Prop :=
  ∃ (blocks : List (List Char)) (last : List Char), cs = '-' :: (blocks.flatten ++ last) ∧
    blocks ≠ [] ∧ (∀ b ∈ blocks, Digits b ∧ decimal b = 2 ^ (w - 1)) ∧ Digits last ∧
    decimal last ≤ 2 ^ (w - 1)

theorem Restarts.form {cs : List Char} (h : Restarts w cs) :
    ∃ ds, SignedForm cs true ds ∧ Restart (2 ^ (w - 1)) ds := by
  obtain ⟨blocks, last, rfl, hne, hblocks, hlast, hle⟩ := h
  refine ⟨blocks.flatten ++ last, ⟨⟨List.append_ne_nil_of_right_ne_nil _ hlast.1, ?_⟩,
    Or.inl ⟨rfl, rfl⟩⟩, blocks, last, rfl, hne, fun b hb => (hblocks b hb).2, hlast.1, hle⟩
  intro c hc
  rcases List.mem_append.mp hc with hc | hc
  · obtain ⟨b, hb, hcb⟩ := List.mem_flatten.mp hc
    exact (hblocks b hb).1.2 c hcb
  · exact hlast.2 c hc

theorem restarts_iff {ds : List Char} (hds : Digits ds) :
    Restarts w ('-' :: ds) ↔ Restart (2 ^ (w - 1)) ds := by
  apply Iff.intro
  · intro h
    obtain ⟨ds', hform, hrestart⟩ := h.form
    obtain ⟨_, rfl⟩ := signedForm_unique hform ⟨hds, Or.inl ⟨rfl, rfl⟩⟩
    exact hrestart
  · intro h'
    obtain ⟨blocks, last, rfl, hne, hblocks, hlast, hle⟩ := h'
    have hpos := Nat.two_pow_pos (w - 1)
    refine ⟨blocks, last, rfl, hne, fun b hb => ⟨⟨?_, ?_⟩, hblocks b hb⟩, ⟨hlast, ?_⟩, hle⟩
    · intro h'
      subst h'
      have hzero : decimal [] = 0 := rfl
      have hhalf := hblocks [] hb
      omega
    · intro c hc
      exact hds.2 c (List.mem_append_left _ (List.mem_flatten_of_mem hb hc))
    · intro c hc
      exact hds.2 c (List.mem_append_right _ hc)

theorem not_restarts {cs ds : List Char} (h : SignedForm cs false ds) : ¬ Restarts w cs := by
  intro hrestarts
  obtain ⟨ds', hform, _⟩ := hrestarts.form
  cases (signedForm_unique h hform).1

variable {positiveLastDigit negativeLastDigit : BitVec w}

theorem parse_invalid {cs : List Char} (h : ¬ ∃ negative ds, SignedForm cs negative ds) :
    parseDecimalSignedInteger lastStep positiveLastDigit negativeLastDigit cs =
      .error .Invalid := by
  have hloop : ∀ (k : BitVec w) (positive : Bool) (ds : List Char), ds ≠ [] → ¬ Digits ds →
      signedLoop lastStep k positive (false, 0) ds = .error .Invalid := by
    intro k positive ds hne hds
    exact digitLoop_invalid (fun hall => hds ⟨hne, hall⟩) _
  unfold parseDecimalSignedInteger
  cases cs with
  | nil => rfl
  | cons c rest =>
    simp only
    split_ifs with hminus hempty hplus hempty
    · rfl
    · subst hminus
      exact hloop _ _ _ hempty fun hds => h ⟨true, rest, hds, Or.inl ⟨rfl, rfl⟩⟩
    · rfl
    · subst hplus
      exact hloop _ _ _ hempty fun hds => h ⟨false, rest, hds, Or.inr ⟨rfl, Or.inl rfl⟩⟩
    · exact hloop _ _ _ (List.cons_ne_nil c rest) fun hds =>
        h ⟨false, c :: rest, hds, Or.inr ⟨rfl, Or.inr rfl⟩⟩

theorem parse_form {cs ds : List Char} {negative : Bool} (h : SignedForm cs negative ds) :
    parseDecimalSignedInteger lastStep positiveLastDigit negativeLastDigit cs =
      signedLoop lastStep (if negative then negativeLastDigit else positiveLastDigit) (!negative)
        (false, 0) ds := by
  obtain ⟨hds, ⟨rfl, rfl⟩ | ⟨rfl, rfl | rfl⟩⟩ := h
  · show (if ds = [] then _ else _) = _
    rw [if_neg hds.1]
    rfl
  · show (if ds = [] then _ else _) = _
    rw [if_neg hds.1]
    rfl
  · cases cs with
    | nil => exact absurd rfl hds.1
    | cons c rest =>
      have hc := hds.2 c List.mem_cons_self
      have hminus : c ≠ '-' := by
        intro h'
        subst h'
        cases hc
      have hplus : c ≠ '+' := by
        intro h'
        subst h'
        cases hc
      unfold parseDecimalSignedInteger
      simp only [if_neg hminus, if_neg hplus]
      rfl

theorem parseDecimalSignedInteger_parses_iff (hpos : SignedLastStep lastStep positiveLastDigit)
    (hneg : SignedLastStep lastStep negativeLastDigit) (hseven : positiveLastDigit.toNat = 7)
    (height : negativeLastDigit.toNat = 8) (cs : List Char) :
    ParsesSigned (parseDecimalSignedInteger lastStep positiveLastDigit negativeLastDigit cs) cs ↔
      ¬ Restarts w cs := by
  have hw : 0 < w := by
    rcases Nat.eq_zero_or_pos w with rfl | h
    · have hlargest := hpos.largest
      rw [Nat.zero_sub, Nat.pow_zero] at hlargest
      omega
    · exact h
  by_cases hform : ∃ negative ds, SignedForm cs negative ds
  · obtain ⟨negative, ds, h⟩ := hform
    rw [parsesSigned_iff hw h, parse_form h]
    cases negative with
    | true =>
      obtain ⟨hds, ⟨_, rfl⟩ | ⟨hfalse, _⟩⟩ := h
      · rw [restarts_iff hds]
        exact signedLoop_negative hneg height hds.2
      · cases hfalse
    | false => exact iff_of_true (signedLoop_positive hpos hseven h.1.2) (not_restarts h)
  · have hnot : ¬ Restarts w cs := by
      intro h
      obtain ⟨ds, h, _⟩ := h.form
      exact hform ⟨true, ds, h⟩
    rw [parse_invalid hform]
    refine iff_of_true ⟨by simp [hform], ?_, ?_⟩ hnot
    · refine iff_of_false (by simp) ?_
      intro h'
      obtain ⟨negative, ds, h, _⟩ := h'
      exact hform ⟨negative, ds, h⟩
    · intro x
      refine iff_of_false (by simp) ?_
      intro h'
      obtain ⟨negative, ds, h, _⟩ := h'
      exact hform ⟨negative, ds, h⟩

end Signed

/-- The signed parsers are exact unless the digits go on behind the most negative value. -/
theorem parseDecimalInt_exact_iff (cs : List Char) :
    (ParsesSigned (parseDecimalInt64 cs) cs ↔ ¬ Restarts 64 cs) ∧
    (ParsesSigned (parseDecimalInt32 cs) cs ↔ ¬ Restarts 32 cs) ∧
    (ParsesSigned (parseDecimalInt16 cs) cs ↔ ¬ Restarts 16 cs) ∧
    (ParsesSigned (parseDecimalInt8 cs) cs ↔ ¬ Restarts 8 cs) := by
  refine ⟨?_, ?_, ?_, ?_⟩ <;>
  exact parseDecimalSignedInteger_parses_iff ⟨by decide, by decide, by decide, by decide⟩
    ⟨by decide, by decide, by decide, by decide⟩ (by decide) (by decide) cs

theorem parseDecimalInt_restarts :
    parseDecimalInt8 "-1280".toList = .ok 0 ∧ ¬ ParsesSigned (parseDecimalInt8 "-1280".toList)
      "-1280".toList := by
  have hzero : parseDecimalInt8 "-1280".toList = .ok 0 := by decide
  refine ⟨hzero, fun h => ?_⟩
  have hform : SignedForm "-1280".toList true "1280".toList :=
    ⟨⟨by decide, List.all_eq_true.mp (by decide)⟩, Or.inl ⟨rfl, by decide⟩⟩
  have hrange : ¬ InRange 8 (signedValue true "1280".toList) := by decide
  have hoverflow : parseDecimalInt8 "-1280".toList = .error .Overflow :=
    h.overflow.mpr ⟨true, "1280".toList, hform, hrange⟩
  rw [hzero] at hoverflow
  cases hoverflow

end Pimc
