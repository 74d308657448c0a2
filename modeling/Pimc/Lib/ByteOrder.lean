import Mathlib.Data.BitVec

/-!
# Byte order on a little-endian host

The image of a word is its bytes in memory order. `be16` and `be32` are the
bytes of a word as it stands on the wire.
-/

namespace Pimc.Lib

abbrev Byte := BitVec 8

def image16 (v : BitVec 16) : List Byte := [v.extractLsb' 0 8, v.extractLsb' 8 8]

def image32 (v : BitVec 32) : List Byte :=
  [v.extractLsb' 0 8, v.extractLsb' 8 8, v.extractLsb' 16 8, v.extractLsb' 24 8]

def image64 (v : BitVec 64) : List Byte :=
  image32 (v.extractLsb' 0 32) ++ image32 (v.extractLsb' 32 32)

def load16 (b0 b1 : Byte) : BitVec 16 := b1 ++ b0

def load32 (b0 b1 b2 b3 : Byte) : BitVec 32 := b3 ++ b2 ++ b1 ++ b0

def load64 (b0 b1 b2 b3 b4 b5 b6 b7 : Byte) : BitVec 64 :=
  load32 b4 b5 b6 b7 ++ load32 b0 b1 b2 b3

def htons (v : BitVec 16) : BitVec 16 := v.extractLsb' 0 8 ++ v.extractLsb' 8 8

def htonl (v : BitVec 32) : BitVec 32 :=
  v.extractLsb' 0 8 ++ v.extractLsb' 8 8 ++ v.extractLsb' 16 8 ++ v.extractLsb' 24 8

def ntohs (v : BitVec 16) : BitVec 16 := htons v

def ntohl (v : BitVec 32) : BitVec 32 := htonl v

abbrev htobe16 := htons

abbrev be16toh := ntohs

def htobe64 (v : BitVec 64) : BitVec 64 :=
  htonl (v.extractLsb' 0 32) ++ htonl (v.extractLsb' 32 32)

def be64toh (v : BitVec 64) : BitVec 64 := htobe64 v

def be16 (v : BitVec 16) : List Byte := [v.extractLsb' 8 8, v.extractLsb' 0 8]

def be32 (v : BitVec 32) : List Byte :=
  [v.extractLsb' 24 8, v.extractLsb' 16 8, v.extractLsb' 8 8, v.extractLsb' 0 8]

def be64 (v : BitVec 64) : List Byte := be32 (v.extractLsb' 32 32) ++ be32 (v.extractLsb' 0 32)

/-! ### Stores of converted words -/

theorem image16_htons (v : BitVec 16) : image16 (htons v) = be16 v := by
  simp only [image16, htons, be16, List.cons.injEq, and_true]
  constructor <;>
  · ext i hi
    simp
    grind

theorem image32_htonl (v : BitVec 32) : image32 (htonl v) = be32 v := by
  simp only [image32, htonl, be32, List.cons.injEq, and_true]
  refine ⟨?_, ?_, ?_, ?_⟩ <;>
  · ext i hi
    simp
    grind

theorem append_halves_low (high low : BitVec 32) : (high ++ low).extractLsb' 0 32 = low := by
  ext i hi
  simp
  grind

theorem append_halves_high (high low : BitVec 32) : (high ++ low).extractLsb' 32 32 = high := by
  ext i hi
  simp
  grind

theorem image64_htobe64 (v : BitVec 64) : image64 (htobe64 v) = be64 v := by
  unfold image64 htobe64 be64
  rw [append_halves_low, append_halves_high, image32_htonl, image32_htonl]

/-! ### Loads of wire words -/

theorem htons_htons (v : BitVec 16) : htons (htons v) = v := by
  ext i hi
  simp [htons]
  grind

theorem ntohs_load16 (b0 b1 : Byte) : ntohs (load16 b0 b1) = b0 ++ b1 := by
  ext i hi
  simp [ntohs, htons, load16]
  grind

theorem ntohl_load32 (b0 b1 b2 b3 : Byte) : ntohl (load32 b0 b1 b2 b3) = b0 ++ b1 ++ b2 ++ b3 := by
  ext i hi
  simp [ntohl, htonl, load32]
  grind

theorem be64toh_load64 (b0 b1 b2 b3 b4 b5 b6 b7 : Byte) :
    be64toh (load64 b0 b1 b2 b3 b4 b5 b6 b7) = (b0 ++ b1 ++ b2 ++ b3) ++ (b4 ++ b5 ++ b6 ++ b7) := by
  have hhigh := ntohl_load32 b0 b1 b2 b3
  have hlow := ntohl_load32 b4 b5 b6 b7
  unfold ntohl at hhigh hlow
  unfold be64toh htobe64 load64
  rw [append_halves_low, append_halves_high, hhigh, hlow]

theorem append_extract16 (v : BitVec 16) : v.extractLsb' 8 8 ++ v.extractLsb' 0 8 = v := by
  ext i hi
  simp
  grind

theorem append_extract32 (v : BitVec 32) :
    v.extractLsb' 24 8 ++ v.extractLsb' 16 8 ++ v.extractLsb' 8 8 ++ v.extractLsb' 0 8 = v := by
  ext i hi
  simp
  grind

theorem htonl_htonl (v : BitVec 32) : htonl (htonl v) = v :=
  (ntohl_load32 _ _ _ _).trans (append_extract32 v)

theorem append_extract64 (v : BitVec 64) : v.extractLsb' 32 32 ++ v.extractLsb' 0 32 = v := by
  ext i hi
  simp
  grind

/-! ### Values of wire words -/

theorem append_byte_toNat {n : ℕ} (high : BitVec n) (low : Byte) :
    (high ++ low).toNat = 256 * high.toNat + low.toNat := by
  have hlow := low.isLt
  rw [BitVec.toNat_append, ← Nat.shiftLeft_add_eq_or_of_lt hlow, Nat.shiftLeft_eq]
  omega

theorem append32_toNat (b0 b1 b2 b3 : Byte) :
    (b0 ++ b1 ++ b2 ++ b3).toNat =
      16777216 * b0.toNat + 65536 * b1.toNat + 256 * b2.toNat + b3.toNat := by
  have h1 := append_byte_toNat b0 b1
  have h2 := append_byte_toNat (b0 ++ b1) b2
  have h3 := append_byte_toNat (b0 ++ b1 ++ b2) b3
  omega

theorem extract16_toNat (v : BitVec 16) :
    256 * (v.extractLsb' 8 8).toNat + (v.extractLsb' 0 8).toNat = v.toNat := by
  have h := append_byte_toNat (v.extractLsb' 8 8) (v.extractLsb' 0 8)
  rw [← h]
  exact congrArg BitVec.toNat (append_extract16 v)

end Pimc.Lib
