import Pimc.Packets.IPChecksum

/-!
# The checksum is the Internet checksum at every alignment

The words that the function loads depend on the address of the data. Their sum
modulo 65535 does not, up to the byte order that the last step restores.
-/

namespace Pimc

open Lib

/-! ### The words that are loaded -/

def completeWords : List Byte → List (BitVec 32)
  | b0 :: b1 :: b2 :: b3 :: data => load32 b0 b1 b2 b3 :: completeWords data
  | _ => []

/-- The words that are added to the accumulator, in order. -/
def loadedWords (offset : ℕ) (data : List Byte) : List (BitVec 32) :=
  let count := if offset ≠ 0 then min (4 - offset) data.length else 0
  let rest := data.drop count
  let tail := rest.drop (4 * (rest.length / 4))
  (if offset ≠ 0 then [partialWord offset (data.take count)] else []) ++ completeWords rest ++
    if tail.length ≠ 0 then [partialWord 0 tail] else []

theorem completeWords_short {data : List Byte} (h : data.length < 4) : completeWords data = [] := by
  match data, h with
  | [], _ => rfl
  | [_], _ => rfl
  | [_, _], _ => rfl
  | [_, _, _], _ => rfl

theorem completeWords_length (data : List Byte) : (completeWords data).length = data.length / 4 := by
  induction data using words_induction with
  | hword b0 b1 b2 b3 data ih =>
    simp only [completeWords, List.length_cons, ih]
    omega
  | hshort data hlt =>
    rw [completeWords_short hlt, List.length_nil, Nat.div_eq_of_lt hlt]

theorem addWords_eq (acc : BitVec 64) (data : List Byte) :
    addWords acc data =
      ((completeWords data).foldl addWord acc, data.drop (4 * (data.length / 4))) := by
  induction data using words_induction generalizing acc with
  | hword b0 b1 b2 b3 data ih =>
    have hcount : 4 * ((b0 :: b1 :: b2 :: b3 :: data).length / 4) =
        4 * (data.length / 4) + 4 := by
      simp only [List.length_cons]
      omega
    have hstep : addWords acc (b0 :: b1 :: b2 :: b3 :: data) =
        addWords (addWord acc (load32 b0 b1 b2 b3)) data := rfl
    rw [hstep, ih, hcount]
    rfl
  | hshort data hlt =>
    rw [addWords_short acc hlt, completeWords_short hlt, Nat.div_eq_of_lt hlt]
    rfl

theorem accumulate_eq (offset : ℕ) (data : List Byte) :
    accumulate offset data = (loadedWords offset data).foldl addWord 0xffff#64 := by
  unfold accumulate loadedWords
  simp only [addWords_eq, List.foldl_append]
  split_ifs <;> rfl

theorem loadedWords_length (offset : ℕ) (data : List Byte) :
    (loadedWords offset data).length ≤ data.length / 4 + 2 := by
  unfold loadedWords
  simp only [List.length_append, completeWords_length, List.length_drop]
  split_ifs <;> simp only [List.length_singleton, List.length_nil] <;> omega

/-! ### No overflow -/

theorem foldl_addWord_le (words : List (BitVec 32)) (acc : BitVec 64) :
    (words.foldl addWord acc).toNat ≤ acc.toNat + 4294967296 * words.length := by
  induction words generalizing acc with
  | nil => simp
  | cons word words ih =>
    have hword := (ntohl word).isLt
    have hstep : (addWord acc word).toNat ≤ acc.toNat + 4294967296 := by
      rw [addWord, BitVec.toNat_add, BitVec.toNat_setWidth]
      omega
    have htail := ih (addWord acc word)
    rw [List.foldl_cons, List.length_cons]
    linarith

/-- The additions are additions of natural numbers. -/
theorem accumulate_fits {offset : ℕ} {data : List Byte} (hlen : data.length < 2 ^ 32)
    {pre post : List (BitVec 32)} {word : BitVec 32}
    (hwords : loadedWords offset data = pre ++ word :: post) :
    (pre.foldl addWord 0xffff#64).toNat + (ntohl word).toNat < 2 ^ 64 := by
  have hcount := loadedWords_length offset data
  rw [hwords, List.length_append, List.length_cons] at hcount
  have hpre : pre.length ≤ 1073741824 := by omega
  have hfold := foldl_addWord_le pre 0xffff#64
  have hinit : (0xffff#64).toNat = 65535 := rfl
  have hword := (ntohl word).isLt
  omega

/-! ### The value -/

/-- The representative of `n` modulo 65535 among 1, …, 65535. -/
def onesRepresentative (n : ℕ) : ℕ := if n % 65535 = 0 then 65535 else n % 65535

theorem onesRepresentative_unique {s n : ℕ} (hpos : 0 < s) (hle : s ≤ 65535)
    (hmod : s ≡ n [MOD 65535]) : s = onesRepresentative n := by
  unfold Nat.ModEq at hmod
  unfold onesRepresentative
  split_ifs <;> omega

theorem ntohs_ipChecksumNs (pktData : ℕ) {data : List Byte} (hlen : data.length < 2 ^ 32) :
    ntohs (ipChecksumNs pktData data) =
      ~~~ BitVec.ofNat 16 (onesRepresentative (wireWords data).sum) := by
  obtain ⟨s, hpos, hle, hmod, hvalue⟩ := ipChecksumNs_spec pktData hlen
  rw [← wireWords_sum] at hmod
  rw [← onesRepresentative_unique hpos hle hmod, hvalue, ntohs, htons_htons]
  apply BitVec.eq_of_toNat_eq
  rw [BitVec.toNat_not, BitVec.toNat_ofNat, BitVec.toNat_ofNat]
  omega

/-- What the loop over the carries makes of the accumulator. -/
def foldedSum (pktData : ℕ) (data : List Byte) : BitVec 64 :=
  let acc := accumulate (pktData % 4) data
  carries ((acc &&& 0xffffffff#64) + (acc >>> 32))

theorem foldedSum_bounds (pktData : ℕ) {data : List Byte} (hlen : data.length < 2 ^ 32) :
    0 < (foldedSum pktData data).toNat ∧ (foldedSum pktData data).toNat ≤ 65535 := by
  have hadds := accumulate_adds (Nat.mod_lt pktData (by decide : 0 < 4)) hlen
  have hinit : (0xffff#64).toNat = 65535 := rfl
  have hlower := hadds.lower
  have hcarry := carry32_toNat (accumulate (pktData % 4) data)
  obtain ⟨hpos, hle, _⟩ := carries_spec
    (show 0 < ((accumulate (pktData % 4) data &&& 0xffffffff#64) +
      (accumulate (pktData % 4) data >>> 32)).toNat by omega)
  exact ⟨hpos, hle⟩

theorem ipChecksumNs_exact (pktData : ℕ) (data : List Byte) (hlen : data.length < 2 ^ 32) :
    ntohs (ipChecksumNs pktData data) =
        ~~~ BitVec.ofNat 16 (onesRepresentative (wireWords data).sum) ∧
      (∀ pktData', ipChecksumNs pktData' data = ipChecksumNs pktData data) ∧
      accumulate (pktData % 4) data =
        (loadedWords (pktData % 4) data).foldl addWord 0xffff#64 ∧
      (∀ pre word post, loadedWords (pktData % 4) data = pre ++ word :: post →
        (pre.foldl addWord 0xffff#64).toNat + (ntohl word).toNat < 2 ^ 64) ∧
      0 < (foldedSum pktData data).toNat ∧ (foldedSum pktData data).toNat ≤ 0xFFFF := by
  refine ⟨ntohs_ipChecksumNs pktData hlen, ?_, accumulate_eq _ _, ?_, foldedSum_bounds pktData hlen⟩
  · intro pktData'
    have hsame := (ntohs_ipChecksumNs pktData' hlen).trans (ntohs_ipChecksumNs pktData hlen).symm
    have hback := congrArg htons hsame
    simp only [ntohs, htons_htons] at hback
    exact hback
  · intro pre word post hwords
    exact accumulate_fits hlen hwords

-- Five bytes from an odd address: a leading gap of three bytes and an odd tail.
theorem ipChecksumNs_exact_example :
    ntohs (ipChecksumNs 0x1001 [0x45, 0x00, 0x12, 0x34, 0x9a]) =
      ~~~ BitVec.ofNat 16 (onesRepresentative (wireWords [0x45, 0x00, 0x12, 0x34, 0x9a]).sum) ∧
    (foldedSum 0x1001 [0x45, 0x00, 0x12, 0x34, 0x9a]).toNat ≤ 0xFFFF :=
  have h := ipChecksumNs_exact 0x1001 [0x45, 0x00, 0x12, 0x34, 0x9a] (by decide)
  ⟨h.1, h.2.2.2.2.2⟩

end Pimc
