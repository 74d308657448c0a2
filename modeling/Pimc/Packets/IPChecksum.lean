import Mathlib.Tactic.Linarith
import Pimc.Lib.ByteMemory
import Pimc.Lib.OnesComplement

/-!
# The IP checksum (lib/pimc/packets/IPChecksum.cpp)

`pktData` is the address of the data, which the function looks at to load
aligned words. The accumulator has 64 bits.
-/

namespace Pimc

open Lib

/-! ### The function -/

/-- A zero word after `memcpy` of `bs` to its byte `offset`. -/
def partialWord (offset : ℕ) (bs : List Byte) : BitVec 32 :=
  match overlay offset bs (List.replicate 4 0) with
  | [b0, b1, b2, b3] => load32 b0 b1 b2 b3
  | _ => 0

def addWord (acc : BitVec 64) (word : BitVec 32) : BitVec 64 := acc + (ntohl word).setWidth 64

/-- The loop over the complete words, which leaves the bytes after them. -/
def addWords (acc : BitVec 64) : List Byte → BitVec 64 × List Byte
  | b0 :: b1 :: b2 :: b3 :: data => addWords (addWord acc (load32 b0 b1 b2 b3)) data
  | data => (acc, data)

/-- The accumulator after the data: any partial word at the start, the complete words, any
partial word at the end. -/
def accumulate (offset : ℕ) (data : List Byte) : BitVec 64 :=
  let acc := 0xffff#64
  let count := if offset ≠ 0 then min (4 - offset) data.length else 0
  let acc := if offset ≠ 0 then addWord acc (partialWord offset (data.take count)) else acc
  let (acc, data) := addWords acc (data.drop count)
  if data.length ≠ 0 then addWord acc (partialWord 0 data) else acc

theorem shift_toNat (acc : BitVec 64) (n : ℕ) : (acc >>> n).toNat = acc.toNat / 2 ^ n := by
  rw [BitVec.toNat_ushiftRight, Nat.shiftRight_eq_div_pow]

theorem low16_toNat (acc : BitVec 64) : (acc &&& 0xffff#64).toNat = acc.toNat % 2 ^ 16 := by
  rw [BitVec.toNat_and]
  exact Nat.and_two_pow_sub_one_eq_mod acc.toNat 16

theorem low32_toNat (acc : BitVec 64) : (acc &&& 0xffffffff#64).toNat = acc.toNat % 2 ^ 32 := by
  rw [BitVec.toNat_and]
  exact Nat.and_two_pow_sub_one_eq_mod acc.toNat 32

theorem carry16_toNat (acc : BitVec 64) :
    ((acc &&& 0xffff#64) + (acc >>> 16)).toNat = acc.toNat % 2 ^ 16 + acc.toNat / 2 ^ 16 := by
  have hlt := acc.isLt
  rw [BitVec.toNat_add, low16_toNat, shift_toNat]
  omega

theorem carry32_toNat (acc : BitVec 64) :
    ((acc &&& 0xffffffff#64) + (acc >>> 32)).toNat = acc.toNat % 2 ^ 32 + acc.toNat / 2 ^ 32 := by
  have hlt := acc.isLt
  rw [BitVec.toNat_add, low32_toNat, shift_toNat]
  omega

theorem carry_lt {acc : BitVec 64} (h : acc >>> 16 ≠ 0) :
    ((acc &&& 0xffff#64) + (acc >>> 16)).toNat < acc.toNat := by
  have hne : acc.toNat / 2 ^ 16 ≠ 0 := by
    rw [← shift_toNat]
    intro h0
    exact h (BitVec.eq_of_toNat_eq h0)
  rw [carry16_toNat]
  omega

/-- `while (acc >> 16)`. -/
def carries (acc : BitVec 64) : BitVec 64 :=
  if acc >>> 16 ≠ 0 then carries ((acc &&& 0xffff#64) + (acc >>> 16)) else acc
termination_by acc.toNat
decreasing_by exact carry_lt ‹_›

def swapBytes (acc : BitVec 64) : BitVec 64 :=
  ((acc &&& 0xff00#64) >>> 8) ||| ((acc &&& 0x00ff#64) <<< 8)

def ipChecksumNs (pktData : ℕ) (data : List Byte) : BitVec 16 :=
  let offset := pktData % 4
  let acc := accumulate offset data
  let acc := (acc &&& 0xffffffff#64) + (acc >>> 32)
  let acc := carries acc
  let acc := if offset % 2 = 1 then swapBytes acc else acc
  htons ((~~~acc).setWidth 16)

/-! ### Accumulation -/

/-- `acc'` is `acc` after `n` words or less with the bytes `bs`, of which the first has weight 256
when `p` holds. -/
structure Adds (acc acc' : BitVec 64) (n : ℕ) (p : Bool) (bs : List Byte) : Prop where
  sum : acc'.toNat ≡ acc.toNat + weigh p bs [MOD 65535]
  lower : acc.toNat ≤ acc'.toNat
  upper : acc'.toNat ≤ acc.toNat + 4294967296 * n

theorem load32_weigh (b0 b1 b2 b3 : Byte) :
    (ntohl (load32 b0 b1 b2 b3)).toNat ≡ weigh true [b0, b1, b2, b3] [MOD 65535] := by
  have h : (ntohl (load32 b0 b1 b2 b3)).toNat =
      16777216 * b0.toNat + 65536 * b1.toNat + 256 * b2.toNat + b3.toNat := by
    rw [ntohl_load32]
    exact append32_toNat b0 b1 b2 b3
  rw [h]
  simp only [weigh, Nat.ModEq]
  omega

theorem weigh_shifted (offset : ℕ) (bs : List Byte) :
    weigh true (List.replicate offset 0 ++ bs) = weigh (offset % 2 == 0) bs := by
  induction offset using Nat.twoStepInduction with
  | zero => rfl
  | one =>
    show 256 * (0 : Byte).toNat + weigh false bs = weigh false bs
    simp
  | more n ih _ =>
    have hparity : (n + 2) % 2 = n % 2 := by omega
    have hzero : (0 : Byte).toNat = 0 := rfl
    simp only [List.replicate_succ, List.cons_append, weigh, hparity, ih, hzero]
    omega

theorem partialWord_weigh {offset : ℕ} {bs : List Byte} (h : offset + bs.length ≤ 4) :
    (ntohl (partialWord offset bs)).toNat ≡ weigh (offset % 2 == 0) bs [MOD 65535] := by
  have hover : overlay offset bs (List.replicate 4 0) =
      List.replicate offset 0 ++ bs ++ List.replicate (4 - (offset + bs.length)) 0 := by
    rw [overlay, List.take_replicate, List.drop_replicate, Nat.min_eq_left (by omega)]
  have hlen : (overlay offset bs (List.replicate 4 0)).length = 4 := by
    rw [hover]
    simp only [List.length_append, List.length_replicate]
    omega
  have hweigh : weigh true (overlay offset bs (List.replicate 4 0)) =
      weigh (offset % 2 == 0) bs := by
    rw [hover, weigh_padded, weigh_shifted]
  rw [← hweigh]
  unfold partialWord
  generalize overlay offset bs (List.replicate 4 0) = word at hlen
  obtain ⟨b0, b1, b2, b3, rfl⟩ := List.length_eq_four.mp hlen
  exact load32_weigh b0 b1 b2 b3

theorem addWord_adds {acc : BitVec 64} {word : BitVec 32} {p : Bool} {bs : List Byte}
    (hword : (ntohl word).toNat ≡ weigh p bs [MOD 65535])
    (hacc : acc.toNat + 2 ^ 32 ≤ 2 ^ 64) : Adds acc (addWord acc word) 1 p bs := by
  have hlt := (ntohl word).isLt
  have hvalue : (addWord acc word).toNat = acc.toNat + (ntohl word).toNat := by
    rw [addWord, BitVec.toNat_add, BitVec.toNat_setWidth]
    omega
  constructor
  · rw [hvalue]
    exact hword.add_left _
  · omega
  · omega

namespace Adds

variable {a b c : BitVec 64} {m n : ℕ} {p q : Bool} {xs ys : List Byte}

theorem refl (a : BitVec 64) (n : ℕ) (p : Bool) : Adds a a n p [] :=
  ⟨Nat.ModEq.refl _, Nat.le_refl _, Nat.le_add_right _ _⟩

theorem trans (hab : Adds a b m p xs) (hbc : Adds b c n q ys)
    (hsplit : weigh p (xs ++ ys) = weigh p xs + weigh q ys) : Adds a c (m + n) p (xs ++ ys) := by
  constructor
  · rw [hsplit, ← Nat.add_assoc]
    exact hbc.sum.trans (hab.sum.add_right _)
  · exact Nat.le_trans hab.lower hbc.lower
  · have hupper := hab.upper
    have hupper' := hbc.upper
    omega

end Adds

/-- Induction over the complete words of a byte sequence. -/
theorem words_induction {P : List Byte → Prop}
    (hword : ∀ b0 b1 b2 b3 data, P data → P (b0 :: b1 :: b2 :: b3 :: data))
    (hshort : ∀ data, data.length < 4 → P data) : ∀ data, P data
  | b0 :: b1 :: b2 :: b3 :: data => hword b0 b1 b2 b3 data (words_induction hword hshort data)
  | [] => hshort [] (by decide)
  | [b0] => hshort [b0] (by simp)
  | [b0, b1] => hshort [b0, b1] (by simp)
  | [b0, b1, b2] => hshort [b0, b1, b2] (by simp)

theorem addWords_short (acc : BitVec 64) {data : List Byte} (h : data.length < 4) :
    addWords acc data = (acc, data) := by
  match data, h with
  | [], _ => rfl
  | [_], _ => rfl
  | [_, _], _ => rfl
  | [_, _, _], _ => rfl

theorem addWords_adds (acc : BitVec 64) (data : List Byte)
    (hacc : acc.toNat + 4294967296 * (data.length / 4) ≤ 2 ^ 64) :
    ∃ words rest, data = words ++ rest ∧ (addWords acc data).2 = rest ∧ rest.length < 4 ∧
      2 ∣ words.length ∧ Adds acc (addWords acc data).1 (data.length / 4) true words := by
  induction data using words_induction generalizing acc with
  | hword b0 b1 b2 b3 data ih =>
    have hcount : (b0 :: b1 :: b2 :: b3 :: data).length / 4 = 1 + data.length / 4 := by
      simp only [List.length_cons]
      omega
    rw [hcount] at hacc ⊢
    have hpos : 0 ≤ data.length / 4 := Nat.zero_le _
    have hfit : acc.toNat + 2 ^ 32 ≤ 2 ^ 64 := by linarith
    have hword := addWord_adds (load32_weigh b0 b1 b2 b3) hfit
    have hupper := hword.upper
    obtain ⟨words, rest, hdata, hrest, hlt, heven, hadds⟩ :=
      ih (addWord acc (load32 b0 b1 b2 b3)) (by linarith)
    refine ⟨[b0, b1, b2, b3] ++ words, rest, ?_, ?_, hlt, ?_, ?_⟩
    · rw [hdata, List.append_assoc]
      rfl
    · exact hrest
    · simp only [List.length_append, List.length_cons, List.length_nil]
      omega
    · exact hword.trans hadds (weigh_append_even true words ⟨2, rfl⟩)
  | hshort data hlt =>
    rw [addWords_short acc hlt]
    exact ⟨[], data, rfl, rfl, hlt, ⟨0, rfl⟩, Adds.refl acc _ true⟩

/-- The bytes up to the first word boundary leave the phase at the start of a word. -/
theorem weigh_aligned {offset : ℕ} {xs : List Byte} (ys : List Byte)
    (h : 2 ∣ offset + xs.length) :
    weigh (offset % 2 == 0) (xs ++ ys) = weigh (offset % 2 == 0) xs + weigh true ys := by
  have heven : 2 ∣ (List.replicate offset (0 : Byte) ++ xs).length := by
    rwa [List.length_append, List.length_replicate]
  rw [← weigh_shifted, ← weigh_shifted, ← List.append_assoc, weigh_append_even true ys heven]

theorem addPartial_adds {acc : BitVec 64} {offset : ℕ} {bs : List Byte}
    (hbs : offset + bs.length ≤ 4) (hacc : acc.toNat + 2 ^ 32 ≤ 2 ^ 64) :
    Adds acc (addWord acc (partialWord offset bs)) 1 (offset % 2 == 0) bs :=
  addWord_adds (partialWord_weigh hbs) hacc

theorem addTail_adds (acc : BitVec 64) {data : List Byte} (hlt : data.length < 4)
    (hacc : acc.toNat + 2 ^ 32 ≤ 2 ^ 64) :
    Adds acc (if data.length ≠ 0 then addWord acc (partialWord 0 data) else acc) 1 true data := by
  split_ifs with hne
  · have hfit : 0 + data.length ≤ 4 := by omega
    exact addPartial_adds hfit hacc
  · rw [List.length_eq_zero_iff.mp (not_not.mp hne)]
    exact Adds.refl acc 1 true

theorem accumulate_adds {offset : ℕ} {data : List Byte} (hoff : offset < 4)
    (hlen : data.length < 2 ^ 32) :
    Adds 0xffff#64 (accumulate offset data) (1 + (data.length / 4 + 1)) (offset % 2 == 0) data := by
  have hinit : (0xffff#64).toNat = 65535 := rfl
  obtain ⟨count, hcount⟩ : ∃ count, count =
      if offset ≠ 0 then min (4 - offset) data.length else 0 := ⟨_, rfl⟩
  obtain ⟨acc, hacc⟩ : ∃ acc, acc = if offset ≠ 0 then
      addWord 0xffff#64 (partialWord offset (data.take count)) else 0xffff#64 := ⟨_, rfl⟩
  have hvalue : accumulate offset data =
      if (addWords acc (data.drop count)).2.length ≠ 0 then
        addWord (addWords acc (data.drop count)).1
          (partialWord 0 (addWords acc (data.drop count)).2)
      else (addWords acc (data.drop count)).1 := by
    rw [hacc, hcount]
    rfl
  have hhead : Adds 0xffff#64 acc 1 (offset % 2 == 0) (data.take count) := by
    rw [hacc]
    split_ifs with hne
    · apply addPartial_adds
      · rw [List.length_take]
        split_ifs at hcount
        omega
      · omega
    · rw [not_not] at hne
      rw [hcount, if_neg (not_not.mpr hne), List.take_zero]
      exact Adds.refl _ 1 _
  have hwordsLe : (data.drop count).length / 4 ≤ data.length / 4 :=
    Nat.div_le_div_right (by simp)
  have hcountLe : data.length / 4 ≤ 1073741823 := by omega
  have hacc' := hhead.upper
  obtain ⟨words, rest, hdata, hrest, hlt, heven, hwords⟩ :=
    addWords_adds acc (data.drop count) (by linarith)
  have htail : Adds (addWords acc (data.drop count)).1 (accumulate offset data) 1 true rest := by
    rw [hvalue, hrest]
    apply addTail_adds _ hlt
    have hupper := hwords.upper
    linarith
  have hmiddle := hwords.trans htail (weigh_append_even true rest heven)
  rw [← hdata] at hmiddle
  have hall := hhead.trans hmiddle (by
    by_cases hend : data.length ≤ count
    · rw [List.drop_eq_nil_of_le hend, List.append_nil]
      rfl
    · apply weigh_aligned
      rw [List.length_take]
      split_ifs at hcount <;> omega)
  rw [List.take_append_drop] at hall
  have hupper := hall.upper
  exact ⟨hall.sum, hall.lower, by linarith⟩

/-! ### The checksum of a byte sequence -/

theorem carries_spec {acc : BitVec 64} (hpos : 0 < acc.toNat) :
    0 < (carries acc).toNat ∧ (carries acc).toNat ≤ 65535 ∧
      (carries acc).toNat ≡ acc.toNat [MOD 65535] := by
  induction acc using carries.induct with
  | case1 acc hne ih =>
    have hcarry := carry16_toNat acc
    rw [carries, if_pos hne]
    obtain ⟨hlow, hhigh, hmod⟩ := ih (by omega)
    refine ⟨hlow, hhigh, hmod.trans ?_⟩
    unfold Nat.ModEq
    omega
  | case2 acc hstop =>
    have hshift : (acc >>> 16).toNat = 0 := by
      rw [not_not.mp hstop]
      rfl
    rw [shift_toNat] at hshift
    rw [carries, if_neg hstop]
    exact ⟨hpos, by omega, Nat.ModEq.refl _⟩

theorem swapBytes_toNat {acc : BitVec 64} (h : acc.toNat ≤ 65535) :
    (swapBytes acc).toNat = 256 * (acc.toNat % 256) + acc.toNat / 256 := by
  have hlow : ((acc &&& 0x00ff#64) <<< 8).toNat = (acc.toNat % 256) <<< 8 := by
    have hmask : (acc &&& 0x00ff#64).toNat = acc.toNat % 256 := by
      rw [BitVec.toNat_and]
      exact Nat.and_two_pow_sub_one_eq_mod acc.toNat 8
    rw [BitVec.toNat_shiftLeft, hmask, Nat.shiftLeft_eq]
    omega
  have hhigh : ((acc &&& 0xff00#64) >>> 8).toNat = acc.toNat / 256 := by
    have hmask : (acc &&& 0xff00#64) >>> 8 = (acc >>> 8) &&& 0x00ff#64 :=
      BitVec.ushiftRight_and_distrib acc 0xff00#64 8
    rw [hmask, BitVec.toNat_and, shift_toNat]
    have hmod : acc.toNat / 2 ^ 8 &&& 255 = acc.toNat / 2 ^ 8 % 2 ^ 8 :=
      Nat.and_two_pow_sub_one_eq_mod _ 8
    have hlit : (0x00ff#64).toNat = 255 := rfl
    rw [hlit, hmod]
    omega
  have hlt : acc.toNat / 256 < 2 ^ 8 := by omega
  rw [swapBytes, BitVec.toNat_or, hlow, hhigh, Nat.or_comm,
    ← Nat.shiftLeft_add_eq_or_of_lt hlt, Nat.shiftLeft_eq]
  omega

theorem complement_low16 {acc : BitVec 64} (h : acc.toNat ≤ 65535) :
    (~~~acc).setWidth 16 = BitVec.ofNat 16 (65535 - acc.toNat) := by
  apply BitVec.eq_of_toNat_eq
  rw [BitVec.toNat_setWidth, BitVec.toNat_not, BitVec.toNat_ofNat]
  omega

/-- The checksum is the complement of a sum of the bytes that is never zero, wherever the
data is placed. -/
theorem ipChecksumNs_spec (pktData : ℕ) {data : List Byte} (hlen : data.length < 2 ^ 32) :
    ∃ s, 0 < s ∧ s ≤ 65535 ∧ s ≡ weigh true data [MOD 65535] ∧
      ipChecksumNs pktData data = htons (BitVec.ofNat 16 (65535 - s)) := by
  have hoff : pktData % 4 < 4 := Nat.mod_lt _ (by decide)
  have hadds := accumulate_adds hoff hlen
  have hinit : (0xffff#64).toNat = 65535 := rfl
  obtain ⟨acc, hacc⟩ : ∃ acc, acc = accumulate (pktData % 4) data := ⟨_, rfl⟩
  rw [← hacc] at hadds
  obtain ⟨folded, hfolded⟩ : ∃ folded, folded =
      carries ((acc &&& 0xffffffff#64) + (acc >>> 32)) := ⟨_, rfl⟩
  have hcarry := carry32_toNat acc
  have hlower := hadds.lower
  obtain ⟨hpos, hle, hmod⟩ := carries_spec
    (show 0 < ((acc &&& 0xffffffff#64) + (acc >>> 32)).toNat by omega)
  rw [← hfolded] at hpos hle hmod
  have hsum : folded.toNat ≡ weigh (pktData % 4 % 2 == 0) data [MOD 65535] := by
    have hacc := hadds.sum
    unfold Nat.ModEq at hmod hacc ⊢
    omega
  have hvalue : ipChecksumNs pktData data =
      htons ((~~~(if pktData % 4 % 2 = 1 then swapBytes folded else folded)).setWidth 16) := by
    rw [hfolded, hacc]
    rfl
  by_cases hodd : pktData % 4 % 2 = 1
  · have hswap := swapBytes_toNat hle
    have hphase := weigh_other_phase false data
    rw [hodd] at hsum
    rw [hvalue, if_pos hodd, complement_low16 (by omega)]
    refine ⟨_, ?_, ?_, ?_, rfl⟩
    · omega
    · omega
    · change folded.toNat ≡ weigh false data [MOD 65535] at hsum
      simp only [Bool.not_false] at hphase
      unfold Nat.ModEq at hsum hphase ⊢
      omega
  · have heven : (pktData % 4 % 2 == 0) = true := by
      rw [beq_iff_eq]
      omega
    rw [heven] at hsum
    rw [hvalue, if_neg hodd, complement_low16 hle]
    exact ⟨_, hpos, hle, hsum, rfl⟩

theorem ipChecksumNs_eq_zero_iff (pktData : ℕ) {data : List Byte} (hlen : data.length < 2 ^ 32) :
    ipChecksumNs pktData data = 0 ↔ 65535 ∣ weigh true data := by
  obtain ⟨s, hpos, hle, hmod, hvalue⟩ := ipChecksumNs_spec pktData hlen
  have hzero : htons (BitVec.ofNat 16 (65535 - s)) = 0 ↔ s = 65535 := by
    constructor
    · intro h
      have hback := congrArg htons h
      rw [htons_htons] at hback
      have hvalue := congrArg BitVec.toNat hback
      rw [BitVec.toNat_ofNat] at hvalue
      change (65535 - s) % 2 ^ 16 = 0 at hvalue
      omega
    · intro h'
      subst h'
      decide
  rw [hvalue, hzero]
  unfold Nat.ModEq at hmod
  omega

/-- The checksum stored at an even offset over zeros completes the sum. -/
theorem checksum_completes (pktData : ℕ) {front back : List Byte} (heven : 2 ∣ front.length)
    (hlen : (front ++ [0, 0] ++ back).length < 2 ^ 32) :
    65535 ∣ weigh true
      (front ++ image16 (ipChecksumNs pktData (front ++ [0, 0] ++ back)) ++ back) := by
  obtain ⟨s, hpos, hle, hmod, hvalue⟩ := ipChecksumNs_spec pktData hlen
  have hfield : weigh true (be16 (BitVec.ofNat 16 (65535 - s))) = 65535 - s := by
    rw [weigh_be16, BitVec.toNat_ofNat]
    omega
  have hzeros : weigh true [(0 : Byte), 0] = 0 := rfl
  have hsplit : ∀ c : List Byte, c.length = 2 → weigh true (front ++ c ++ back) =
      weigh true front + weigh true c + weigh true back := by
    intro c hc
    have hboth : 2 ∣ (front ++ c).length := by
      rw [List.length_append, hc]
      omega
    rw [weigh_append_even true back hboth, weigh_append_even true c heven]
  rw [hsplit [0, 0] rfl, hzeros] at hmod
  rw [hvalue, image16_htons, hsplit _ rfl, hfield]
  unfold Nat.ModEq at hmod
  omega

end Pimc
