import Mathlib.Data.BitVec
import Mathlib.Data.List.Range
import Pimc.Lib.LineFill
import Pimc.Lib.Outcome

/-!
# Hex and character dump (lib/pimc/formatters/HexAsciiBlock.hpp)

The rows are counted in an `unsigned`, the bytes in a `size_t`. `isprint` is
that of the "C" locale.
-/

namespace Pimc

namespace HexAsciiBlock

open Lib

/-- A read of `data` behind its end. -/
inductive ReadError where
  | outside (i : ℕ)
  deriving DecidableEq, Repr

def read (data : List (BitVec 8)) (i : ℕ) : Outcome ReadError (BitVec 8) :=
  match data[i]? with
  | some b => .ret b
  | none => .throws (.outside i)

-- `{:02x}`.
def hex02 (v : ℕ) : List Char :=
  let digits := Nat.toDigits 16 v
  List.replicate (2 - digits.length) '0' ++ digits

def isprint (b : BitVec 8) : Bool := 0x20#8 ≤ b ∧ b ≤ 0x7E#8

/-! ### The loops -/

/-- A loop variable of type `unsigned` and the output. -/
structure View where
  i : BitVec 32
  oi : List Char

-- The two views differ in what they show of the byte at an offset from `start`.
def viewBody (render : BitVec 32 → BitVec 8 → List Char) (data : List (BitVec 8))
    (start : BitVec 32) (s : View) : Outcome ReadError View := do
  let b ← read data s.i.toNat
  return ⟨s.i + 1, s.oi ++ render (s.i - start) b⟩

def viewGuard (stop : BitVec 64) (s : View) : Bool := s.i.setWidth 64 < stop

def showHex (offset : BitVec 32) (b : BitVec 8) : List Char :=
  hex02 b.toNat ++ [' '] ++ if offset == 7 then [' '] else []

def showChar (_ : BitVec 32) (b : BitVec 8) : List Char :=
  if isprint b then [Char.ofNat b.toNat] else ['.']

/-- The loop over the missing hex values. -/
structure Padding where
  i : BitVec 64
  oi : List Char

def padGuard (s : Padding) : Bool := s.i < 16

def padBody (s : Padding) : Outcome ReadError Padding :=
  .ret ⟨s.i + 1, s.oi ++ (if s.i == 7 then [' '] else []) ++ [' ', ' ', ' ']⟩

-- Only the last row may be shorter than 16 bytes.
def padRow (stop sz : BitVec 64) (oi : List Char) (fuel : ℕ) : Outcome ReadError Padding :=
  if stop == sz && sz % 16 != 0 then whileLoop padGuard padBody fuel ⟨sz % 16, oi⟩
  else .ret ⟨sz % 16, oi⟩

structure Rows where
  start : BitVec 32
  oi : List Char

def rowGuard (sz : BitVec 64) (s : Rows) : Bool := s.start.setWidth 64 < sz

def rowEnd (sz : BitVec 64) (start : BitVec 32) : BitVec 64 :=
  if sz - start.setWidth 64 < 16 then sz else (start + 16).setWidth 64

def rowBody (data : List (BitVec 8)) (sz : BitVec 64) (fuel : ℕ) (s : Rows) :
    Outcome ReadError Rows := do
  let stop := rowEnd sz s.start
  let oi := s.oi ++ [' ', ' ']
  let hex ← whileLoop (viewGuard stop) (viewBody showHex data s.start) fuel ⟨s.start, oi⟩
  let pad ← padRow stop sz hex.oi fuel
  let oi := pad.oi ++ [' ']
  let chars ← whileLoop (viewGuard stop) (viewBody showChar data s.start) fuel ⟨s.start, oi⟩
  return ⟨s.start + 16, chars.oi ++ if stop != sz then ['\n'] else []⟩

end HexAsciiBlock

open HexAsciiBlock Lib

def formatHexAscii (oi : List Char) (data : List (BitVec 8)) (sz : BitVec 64) (fuel : ℕ) :
    Outcome ReadError (List Char) := do
  let s ← whileLoop (rowGuard sz) (rowBody data sz fuel) fuel ⟨0, oi⟩
  return s.oi

namespace HexAsciiBlock

/-! ### A view -/

/-- What a view shows of some bytes. -/
def pane (render : BitVec 32 → BitVec 8 → List Char) (bytes : List (BitVec 8)) : List Char :=
  (bytes.mapIdx fun k b => render (BitVec.ofNat 32 k) b).flatten

theorem pane_concat (render : BitVec 32 → BitVec 8 → List Char) (bytes : List (BitVec 8))
    (b : BitVec 8) :
    pane render (bytes ++ [b]) = pane render bytes ++ render (BitVec.ofNat 32 bytes.length) b := by
  simp only [pane, List.mapIdx_concat, List.flatten_append, List.flatten_cons, List.flatten_nil,
    List.append_nil]

/-- The bytes from `start` on, `n` of them. -/
def slice (data : List (BitVec 8)) (start n : ℕ) : List (BitVec 8) := (data.drop start).take n

theorem slice_succ {data : List (BitVec 8)} {start n : ℕ} {b : BitVec 8}
    (h : data[start + n]? = some b) : slice data start (n + 1) = slice data start n ++ [b] := by
  rw [slice, slice, List.take_add_one, List.getElem?_drop, h]
  rfl

theorem length_slice {data : List (BitVec 8)} {start n : ℕ} (h : start + n ≤ data.length) :
    (slice data start n).length = n := by
  rw [slice, List.length_take, List.length_drop]
  omega

structure ViewInv (render : BitVec 32 → BitVec 8 → List Char) (data : List (BitVec 8))
    (start : BitVec 32) (oi : List Char) (n : ℕ) (s : View) : Prop where
  le : s.i.toNat ≤ start.toNat + n
  ge : start.toNat ≤ s.i.toNat
  oi : s.oi = oi ++ pane render (slice data start.toNat (s.i.toNat - start.toNat))

theorem setWidth_lt_iff (x : BitVec 32) (y : BitVec 64) :
    x.setWidth 64 < y ↔ x.toNat < y.toNat := by
  rw [BitVec.lt_def, BitVec.toNat_setWidth_of_le (by omega)]

section View

variable {render : BitVec 32 → BitVec 8 → List Char} {data : List (BitVec 8)} {start : BitVec 32}
  {n : ℕ} {stop : BitVec 64}

theorem viewBody_spec {oi : List Char} (hstop : stop.toNat = start.toNat + n)
    (hdata : start.toNat + n ≤ data.length) (hwidth : start.toNat + n < 2 ^ 32) (s : View)
    (h : ViewInv render data start oi n s) (hg : viewGuard stop s = true) :
    ∃ t, viewBody render data start s = .ret t ∧ ViewInv render data start oi n t ∧
      start.toNat + n - t.i.toNat < start.toNat + n - s.i.toNat := by
  have hlt : s.i.toNat < start.toNat + n := by
    rw [← hstop, ← setWidth_lt_iff]
    exact of_decide_eq_true hg
  have hge := h.ge
  have hnext : (s.i + 1).toNat = s.i.toNat + 1 :=
    BitVec.toNat_add_of_lt (show s.i.toNat + 1 < 2 ^ 32 by omega)
  have hoffset : s.i - start = BitVec.ofNat 32 (s.i.toNat - start.toNat) := by
    apply BitVec.eq_of_toNat_eq
    rw [BitVec.toNat_sub_of_le (BitVec.le_def.mpr hge), BitVec.toNat_ofNat,
      Nat.mod_eq_of_lt (by omega)]
  obtain ⟨b, hb⟩ : ∃ b, data[s.i.toNat]? = some b := ⟨_, List.getElem?_eq_getElem (by omega)⟩
  have hread : read data s.i.toNat = .ret b := by rw [read, hb]
  refine ⟨⟨s.i + 1, s.oi ++ render (s.i - start) b⟩, ?_, ⟨?_, ?_, ?_⟩, ?_⟩
  · simp only [viewBody, hread, Outcome.ret_bind, Outcome.pure_eq]
  · show (s.i + 1).toNat ≤ _
    omega
  · show _ ≤ (s.i + 1).toNat
    omega
  · have hslice : slice data start.toNat (s.i.toNat - start.toNat + 1) =
        slice data start.toNat (s.i.toNat - start.toNat) ++ [b] := by
      apply slice_succ
      rwa [Nat.add_sub_cancel' hge]
    show s.oi ++ render (s.i - start) b =
      oi ++ pane render (slice data start.toNat ((s.i + 1).toNat - start.toNat))
    rw [hnext, Nat.sub_add_comm hge, hslice, pane_concat, length_slice (by omega), ← hoffset, h.oi,
      List.append_assoc]
  · show start.toNat + n - (s.i + 1).toNat < _
    omega

/-- A view shows the bytes of its row. -/
theorem view_returns (hstop : stop.toNat = start.toNat + n)
    (hdata : start.toNat + n ≤ data.length) (hwidth : start.toNat + n < 2 ^ 32) (oi : List Char) :
    Returns (fun fuel => whileLoop (viewGuard stop) (viewBody render data start) fuel ⟨start, oi⟩)
      ⟨BitVec.ofNat 32 (start.toNat + n), oi ++ pane render (slice data start.toNat n)⟩ := by
  obtain ⟨t, hret, hinv, hdone⟩ := whileLoop_total (ViewInv render data start oi n)
    (fun s => start.toNat + n - s.i.toNat) (viewBody_spec hstop hdata hwidth) ⟨start, oi⟩
    ⟨Nat.le_add_right _ _, le_rfl, by simp [slice, pane]⟩
  have hle : start.toNat + n ≤ t.i.toNat := by
    rw [← hstop, ← Nat.not_lt, ← setWidth_lt_iff]
    exact of_decide_eq_false hdone
  have hi : t.i.toNat = start.toNat + n := le_antisymm hinv.le hle
  have ht : t = ⟨BitVec.ofNat 32 (start.toNat + n), oi ++ pane render (slice data start.toNat n)⟩ := by
    have hoi := hinv.oi
    rw [hi, Nat.add_sub_cancel_left] at hoi
    cases t with
    | mk i toi =>
      simp only at hi hoi
      rw [← hi, BitVec.ofNat_toNat, BitVec.setWidth_eq, hoi]
  rwa [ht] at hret

end View

/-! ### The missing hex values -/

-- The blanks of the positions from `i` on.
def blanks (i : ℕ) : List Char :=
  (List.range' i (16 - i)).flatMap fun k => (if k = 7 then [' '] else []) ++ [' ', ' ', ' ']

theorem blanks_of_lt {i : ℕ} (h : i < 16) :
    blanks i = ((if i = 7 then [' '] else []) ++ [' ', ' ', ' ']) ++ blanks (i + 1) := by
  obtain ⟨n, hn⟩ : ∃ n, 16 - i = n + 1 := ⟨16 - i - 1, by omega⟩
  have hn' : 16 - (i + 1) = n := by omega
  rw [blanks, blanks, hn, hn', List.range'_succ, List.flatMap_cons]

/-- The text in front of the loop and what the loop still has to add. -/
def PadInv (r : ℕ) (oi : List Char) (s : Padding) : Prop :=
  s.i.toNat ≤ 16 ∧ s.oi ++ blanks s.i.toNat = oi ++ blanks r

theorem padBody_spec {r : ℕ} {oi : List Char} (s : Padding) (h : PadInv r oi s)
    (hg : padGuard s = true) :
    ∃ t, padBody s = .ret t ∧ PadInv r oi t ∧ 16 - t.i.toNat < 16 - s.i.toNat := by
  obtain ⟨_, hoi⟩ := h
  have hlt : s.i.toNat < 16 := BitVec.lt_def.mp (of_decide_eq_true hg)
  have hnext : (s.i + 1).toNat = s.i.toNat + 1 :=
    BitVec.toNat_add_of_lt (show s.i.toNat + 1 < 2 ^ 64 by omega)
  have hseven : (s.i == 7) = decide (s.i.toNat = 7) := by
    rw [Bool.eq_iff_iff, beq_iff_eq, decide_eq_true_iff, ← BitVec.toNat_inj]
    rfl
  refine ⟨_, rfl, ⟨?_, ?_⟩, ?_⟩
  · show (s.i + 1).toNat ≤ 16
    omega
  · rw [blanks_of_lt hlt] at hoi
    rw [← hoi]
    simp only [hnext, hseven, decide_eq_true_eq, List.append_assoc]
  · show 16 - (s.i + 1).toNat < _
    omega

theorem padding_returns {r : BitVec 64} (hr : r.toNat ≤ 16) (oi : List Char) :
    Returns (fun fuel => whileLoop padGuard padBody fuel ⟨r, oi⟩) ⟨16, oi ++ blanks r.toNat⟩ := by
  obtain ⟨t, hret, ⟨hle, hoi⟩, hdone⟩ := whileLoop_total (PadInv r.toNat oi)
    (fun s => 16 - s.i.toNat) padBody_spec ⟨r, oi⟩ ⟨hr, rfl⟩
  have hge : 16 ≤ t.i.toNat := by
    have hnot : ¬ t.i < 16 := of_decide_eq_false hdone
    rw [BitVec.lt_def] at hnot
    exact Nat.not_lt.mp hnot
  have hi : t.i = 16 := BitVec.eq_of_toNat_eq (le_antisymm hle hge)
  have hblanks : blanks t.i.toNat = [] := by rw [hi]; rfl
  rw [hblanks, List.append_nil] at hoi
  have ht : t = ⟨16, oi ++ blanks r.toNat⟩ := by rw [← hoi, ← hi]
  rwa [ht] at hret

/-! ### A row -/

/-- The hex pane of a row: two blanks, the fields with a gap in the middle, and a blank. -/
def hexPane (bytes : List (BitVec 8)) : List Char :=
  [' ', ' '] ++ pane showHex bytes ++ (if bytes.length < 16 then blanks bytes.length else []) ++
    [' ']

def rowText (bytes : List (BitVec 8)) : List Char := hexPane bytes ++ pane showChar bytes

/-- The bytes of row `k`. -/
def rowBytes (data : List (BitVec 8)) (k : ℕ) : List (BitVec 8) := slice data (16 * k) 16

def rowCount (n : ℕ) : ℕ := (n + 15) / 16

theorem length_rowBytes (data : List (BitVec 8)) (k : ℕ) :
    (rowBytes data k).length = min 16 (data.length - 16 * k) := by
  rw [rowBytes, slice, List.length_take, List.length_drop]

theorem slice_length_rowBytes (data : List (BitVec 8)) (k : ℕ) :
    slice data (16 * k) (rowBytes data k).length = rowBytes data k := by
  rw [length_rowBytes, rowBytes, slice, slice, ← List.length_drop, ← List.take_take,
    List.take_length]

section Row

variable {data : List (BitVec 8)} {s : Rows} {k : ℕ}

theorem rowEnd_toNat (hdata : data.length < 2 ^ 32 - 16) (hstart : s.start.toNat = 16 * k)
    (hlt : 16 * k < data.length) :
    (rowEnd (BitVec.ofNat 64 data.length) s.start).toNat =
      s.start.toNat + (rowBytes data k).length := by
  have hsz : (BitVec.ofNat 64 data.length).toNat = data.length :=
    Nat.mod_eq_of_lt (show data.length < 2 ^ 64 by omega)
  have hwide : (s.start.setWidth 64).toNat = s.start.toNat := BitVec.toNat_setWidth_of_le (by omega)
  have hleft : (BitVec.ofNat 64 data.length - s.start.setWidth 64).toNat =
      data.length - 16 * k := by
    rw [BitVec.toNat_sub_of_le (BitVec.le_def.mpr (by omega)), hsz, hwide, hstart]
  have hnext : (s.start + 16).toNat = s.start.toNat + 16 :=
    BitVec.toNat_add_of_lt (show s.start.toNat + 16 < 2 ^ 32 by omega)
  rw [length_rowBytes, rowEnd]
  by_cases hshort : BitVec.ofNat 64 data.length - s.start.setWidth 64 < 16
  · have hlt16 : data.length - 16 * k < 16 := by
      rw [← hleft]
      exact BitVec.lt_def.mp hshort
    rw [if_pos hshort, hsz]
    omega
  · have hge16 : 16 ≤ data.length - 16 * k := by
      rw [BitVec.lt_def, hleft] at hshort
      exact Nat.not_lt.mp hshort
    rw [if_neg hshort, BitVec.toNat_setWidth_of_le (by omega), hnext]
    omega

theorem padRow_returns (hdata : data.length < 2 ^ 32 - 16) (hstart : s.start.toNat = 16 * k)
    (hlt : 16 * k < data.length) (oi : List Char) :
    ∃ i, Returns (padRow (rowEnd (BitVec.ofNat 64 data.length) s.start)
        (BitVec.ofNat 64 data.length) oi)
      ⟨i, oi ++ if (rowBytes data k).length < 16 then blanks (rowBytes data k).length else []⟩ := by
  have hsz : (BitVec.ofNat 64 data.length).toNat = data.length :=
    Nat.mod_eq_of_lt (show data.length < 2 ^ 64 by omega)
  have hrest : (BitVec.ofNat 64 data.length % 16).toNat = data.length % 16 := by
    rw [BitVec.toNat_umod, hsz]
    rfl
  have hend := rowEnd_toNat hdata hstart hlt
  have hlen := length_rowBytes data k
  have hcond : (rowEnd (BitVec.ofNat 64 data.length) s.start == BitVec.ofNat 64 data.length &&
      BitVec.ofNat 64 data.length % 16 != 0) = decide ((rowBytes data k).length < 16) := by
    rw [Bool.eq_iff_iff, Bool.and_eq_true, beq_iff_eq, bne_iff_ne, decide_eq_true_iff, ne_eq,
      ← BitVec.toNat_inj, ← BitVec.toNat_inj, hend, hsz, hrest, hstart, hlen]
    show _ ∧ ¬ data.length % 16 = 0 ↔ _
    omega
  unfold padRow
  simp only [hcond, decide_eq_true_eq]
  by_cases hshort : (rowBytes data k).length < 16
  · have hmod : (BitVec.ofNat 64 data.length % 16).toNat = (rowBytes data k).length := by omega
    simp only [if_pos hshort]
    rw [← hmod]
    exact ⟨_, padding_returns (by omega) oi⟩
  · simp only [if_neg hshort, List.append_nil]
    exact ⟨_, Returns.of_eq fun _ => rfl⟩

/-- One row: its text, and a new line when more rows follow. -/
theorem rowBody_returns (hdata : data.length < 2 ^ 32 - 16) (hstart : s.start.toNat = 16 * k)
    (hlt : 16 * k < data.length) :
    Returns (fun fuel => rowBody data (BitVec.ofNat 64 data.length) fuel s)
      ⟨s.start + 16, s.oi ++ (rowText (rowBytes data k) ++
        if k + 1 < rowCount data.length then ['\n'] else [])⟩ := by
  have hsz : (BitVec.ofNat 64 data.length).toNat = data.length :=
    Nat.mod_eq_of_lt (show data.length < 2 ^ 64 by omega)
  have hend := rowEnd_toNat hdata hstart hlt
  have hlen := length_rowBytes data k
  have hfit : s.start.toNat + (rowBytes data k).length ≤ data.length := by omega
  have hview (render : BitVec 32 → BitVec 8 → List Char) (oi : List Char) :
      Returns (fun fuel => whileLoop (viewGuard (rowEnd (BitVec.ofNat 64 data.length) s.start))
        (viewBody render data s.start) fuel ⟨s.start, oi⟩)
      ⟨_, oi ++ pane render (slice data s.start.toNat (rowBytes data k).length)⟩ :=
    view_returns hend hfit (by omega) oi
  rw [hstart, slice_length_rowBytes] at hview
  obtain ⟨i, hpad⟩ := padRow_returns hdata hstart hlt
    (s.oi ++ [' ', ' '] ++ pane showHex (rowBytes data k))
  have hmore : (rowEnd (BitVec.ofNat 64 data.length) s.start != BitVec.ofNat 64 data.length) =
      decide (k + 1 < rowCount data.length) := by
    rw [Bool.eq_iff_iff, bne_iff_ne, decide_eq_true_iff, ne_eq, ← BitVec.toNat_inj, hend, hsz,
      hstart, hlen, rowCount]
    omega
  refine (hview showHex _).bind (hpad.bind ((hview showChar _).bind (Returns.of_eq fun fuel => ?_)))
  simp only [Outcome.pure_eq, hmore, decide_eq_true_eq, rowText, hexPane, List.append_assoc]

end Row

/-! ### All rows -/

def rowTexts (data : List (BitVec 8)) : List (List Char) :=
  (List.range (rowCount data.length)).map fun k => rowText (rowBytes data k)

-- The first `k` rows, with the new lines between and behind them.
def rowsUpTo (data : List (BitVec 8)) (k : ℕ) : List Char :=
  (List.range k).flatMap fun j => rowText (rowBytes data j) ++
    if j + 1 < rowCount data.length then ['\n'] else []

def RowInv (data : List (BitVec 8)) (oi : List Char) (s : Rows) : Prop :=
  ∃ k ≤ rowCount data.length, s.start.toNat = 16 * k ∧ s.oi = oi ++ rowsUpTo data k

theorem rowBody_spec {data : List (BitVec 8)} {oi : List Char}
    (hdata : data.length < 2 ^ 32 - 16) (s : Rows) (h : RowInv data oi s)
    (hg : rowGuard (BitVec.ofNat 64 data.length) s = true) :
    ∃ t, Returns (fun fuel => rowBody data (BitVec.ofNat 64 data.length) fuel s) t ∧
      RowInv data oi t ∧ data.length - t.start.toNat < data.length - s.start.toNat := by
  obtain ⟨k, _, hstart, hoi⟩ := h
  have hlt : 16 * k < data.length := by
    have hbelow := (setWidth_lt_iff _ _).mp (of_decide_eq_true hg)
    rw [hstart] at hbelow
    exact lt_of_lt_of_le hbelow (Nat.mod_le _ _)
  have hnext : (s.start + 16).toNat = 16 * (k + 1) := by
    rw [BitVec.toNat_add_of_lt (show s.start.toNat + 16 < 2 ^ 32 by omega), hstart]
    rfl
  refine ⟨_, rowBody_returns hdata hstart hlt, ⟨k + 1, ?_, hnext, ?_⟩, ?_⟩
  · unfold rowCount
    omega
  · rw [hoi, rowsUpTo, rowsUpTo, List.range_succ, List.flatMap_append, List.flatMap_singleton,
      List.append_assoc]
  · show data.length - (s.start + 16).toNat < _
    omega

theorem formatHexAscii_returns {data : List (BitVec 8)} (hdata : data.length < 2 ^ 32 - 16)
    (oi : List Char) :
    Returns (formatHexAscii oi data (BitVec.ofNat 64 data.length))
      (oi ++ ['\n'].intercalate (rowTexts data)) := by
  obtain ⟨t, hret, ⟨k, hk, hstart, hoi⟩, hdone⟩ := whileLoop_total_nested (RowInv data oi)
    (fun s => data.length - s.start.toNat) (rowBody_spec hdata) ⟨0, oi⟩
    ⟨0, Nat.zero_le _, rfl, (List.append_nil oi).symm⟩
  have hsz : (BitVec.ofNat 64 data.length).toNat = data.length :=
    Nat.mod_eq_of_lt (show data.length < 2 ^ 64 by omega)
  have hge : data.length ≤ 16 * k := by
    have hnot : ¬ t.start.setWidth 64 < BitVec.ofNat 64 data.length := of_decide_eq_false hdone
    rwa [setWidth_lt_iff, hsz, hstart, Nat.not_lt] at hnot
  have hlast : k = rowCount data.length := by
    unfold rowCount at hk ⊢
    omega
  rw [hlast, rowsUpTo, ← intercalate_map_range] at hoi
  rw [rowTexts, ← hoi]
  exact hret.bind (Returns.of_eq fun _ => rfl)

/-! ### Reading a row -/

def hexValue (c : Char) : Option ℕ := "0123456789abcdef".toList.idxOf? c

/-- The fields of two hexadecimal digits and a blank, with any number of blanks in between. -/
def readHex : List Char → Option (List (BitVec 8))
  | [] => some []
  | ' ' :: text => readHex text
  | c :: d :: ' ' :: text => do
    let high ← hexValue c
    let low ← hexValue d
    let bytes ← readHex text
    return BitVec.ofNat 8 (16 * high + low) :: bytes
  | _ => none

theorem hex02_digits : ∀ v : Fin 256,
    hex02 v = [Nat.digitChar (v / 16), Nat.digitChar (v % 16)] ∧
      Nat.digitChar (v / 16) ≠ ' ' ∧ hexValue (Nat.digitChar (v / 16)) = some (v / 16 : ℕ) ∧
      hexValue (Nat.digitChar (v % 16)) = some (v % 16 : ℕ) := by
  decide +kernel

theorem readHex_blank (text : List Char) : readHex (' ' :: text) = readHex text := by
  rw [readHex]

theorem readHex_hex02 (b : BitVec 8) (text : List Char) :
    readHex (hex02 b.toNat ++ ' ' :: text) = (readHex text).map (b :: ·) := by
  obtain ⟨hdigits, hne, hhigh, hlow⟩ := hex02_digits ⟨b.toNat, b.isLt⟩
  simp only at hdigits hne hhigh hlow
  have hvalue : BitVec.ofNat 8 (16 * (b.toNat / 16) + b.toNat % 16) = b := by
    rw [Nat.div_add_mod, BitVec.ofNat_toNat, BitVec.setWidth_eq]
  rw [hdigits]
  show readHex (_ :: _ :: ' ' :: text) = _
  rw [readHex, hhigh, hlow]
  · cases readHex text with
    | none => rfl
    | some bytes =>
      show some _ = some _
      rw [hvalue]
  · intro h
    exact hne h

theorem readHex_blanks {gap : List Char} (h : ∀ c ∈ gap, c = ' ') (text : List Char) :
    readHex (gap ++ text) = readHex text := by
  induction gap with
  | nil => rfl
  | cons c gap ih =>
    rw [List.cons_append, h c List.mem_cons_self, readHex_blank]
    exact ih fun d hd => h d (List.mem_cons_of_mem _ hd)

theorem readHex_showHex (offset : BitVec 32) (b : BitVec 8) (text : List Char) :
    readHex (showHex offset b ++ text) = (readHex text).map (b :: ·) := by
  have hgap : ∀ c ∈ (if offset == 7 then [' '] else []), c = ' ' := by
    intro c hc
    split_ifs at hc
    · exact List.mem_singleton.mp hc
    · cases hc
  rw [showHex, List.append_assoc, List.append_assoc, List.singleton_append, readHex_hex02,
    readHex_blanks hgap]

/-- Fields that are read one by one are read as a whole. -/
theorem readHex_flatten {field : ℕ → BitVec 8 → List Char}
    (h : ∀ k b text, readHex (field k b ++ text) = (readHex text).map (b :: ·))
    (bytes : List (BitVec 8)) (text : List Char) :
    readHex ((bytes.mapIdx field).flatten ++ text) = (readHex text).map (bytes ++ ·) := by
  induction bytes generalizing field with
  | nil => simp
  | cons b bytes ih =>
    rw [List.mapIdx_cons, List.flatten_cons, List.append_assoc, h, ih fun k => h (k + 1),
      Option.map_map]
    rfl

theorem blank_of_mem_blanks {i : ℕ} {c : Char} (h : c ∈ blanks i) : c = ' ' := by
  obtain ⟨k, _, hc⟩ := List.mem_flatMap.mp h
  split_ifs at hc <;> simpa using hc

theorem readHex_hexPane (bytes : List (BitVec 8)) : readHex (hexPane bytes) = some bytes := by
  have hpad : ∀ c ∈ (if bytes.length < 16 then blanks bytes.length else []), c = ' ' := by
    intro c hc
    split_ifs at hc
    · exact blank_of_mem_blanks hc
    · cases hc
  rw [hexPane, List.append_assoc, List.append_assoc, readHex_blanks (by simp), pane,
    readHex_flatten (fun k b text => readHex_showHex _ b text), readHex_blanks hpad]
  simp [readHex]

/-! ### The columns -/

theorem length_showHex (offset : BitVec 32) (b : BitVec 8) :
    (showHex offset b).length = 3 + if offset == 7 then 1 else 0 := by
  obtain ⟨hdigits, _⟩ := hex02_digits ⟨b.toNat, b.isLt⟩
  simp only at hdigits
  rw [showHex, hdigits]
  split_ifs <;> rfl

theorem length_pane_showHex (bytes : List (BitVec 8)) :
    (pane showHex bytes).length = ((List.range bytes.length).map fun k =>
      3 + if BitVec.ofNat 32 k == 7 then 1 else 0).sum := by
  induction bytes using List.reverseRecOn with
  | nil => rfl
  | append_singleton bytes b ih =>
    rw [pane_concat, List.length_append, ih, length_showHex, List.length_append,
      List.length_singleton, List.range_succ, List.map_append, List.sum_append, List.map_singleton,
      List.sum_singleton]

theorem width_hexPane : ∀ n : Fin 17,
    2 + ((List.range n).map fun k => 3 + if BitVec.ofNat 32 k == 7 then 1 else 0).sum +
      (if (n : ℕ) < 16 then blanks n else []).length + 1 = 52 := by
  decide +kernel

theorem length_hexPane {bytes : List (BitVec 8)} (h : bytes.length ≤ 16) :
    (hexPane bytes).length = 52 := by
  have hwidth := width_hexPane ⟨bytes.length, by omega⟩
  simp only at hwidth
  rw [← length_pane_showHex] at hwidth
  rw [← hwidth]
  simp only [hexPane, List.length_append, List.length_cons, List.length_nil]

def shown (b : BitVec 8) : Char := if isprint b then Char.ofNat b.toNat else '.'

theorem showChar_eq (offset : BitVec 32) (b : BitVec 8) : showChar offset b = [shown b] := by
  unfold showChar shown
  split_ifs <;> rfl

theorem pane_showChar (bytes : List (BitVec 8)) : pane showChar bytes = bytes.map shown := by
  induction bytes using List.reverseRecOn with
  | nil => rfl
  | append_singleton bytes b ih =>
    rw [pane_concat, ih, showChar_eq, List.map_append, List.map_singleton]

theorem newline_not_hex : ∀ v : Fin 256, '\n' ∉ hex02 v := by decide +kernel

theorem shown_ne_newline : ∀ v : Fin 256, shown (BitVec.ofNat 8 v) ≠ '\n' := by decide +kernel

theorem newline_not_mem_showHex (offset : BitVec 32) (b : BitVec 8) :
    '\n' ∉ showHex offset b := by
  have hdigits := newline_not_hex ⟨b.toNat, b.isLt⟩
  unfold showHex
  split_ifs <;> simpa using hdigits

theorem newline_not_mem_hexPane (bytes : List (BitVec 8)) : '\n' ∉ hexPane bytes := by
  have hpane : '\n' ∉ pane showHex bytes := by
    induction bytes using List.reverseRecOn with
    | nil => exact List.not_mem_nil
    | append_singleton bytes b ih =>
      rw [pane_concat, List.mem_append]
      exact not_or.mpr ⟨ih, newline_not_mem_showHex _ b⟩
  have hpad : '\n' ∉ (if bytes.length < 16 then blanks bytes.length else []) := by
    intro h
    split_ifs at h
    · exact absurd (blank_of_mem_blanks h) (by decide)
    · cases h
  simp [hexPane, hpane, hpad]

theorem newline_not_mem_rowText (bytes : List (BitVec 8)) : '\n' ∉ rowText bytes := by
  rw [rowText, pane_showChar, List.mem_append, List.mem_map]
  rintro (h | ⟨b, _, hb⟩)
  · exact newline_not_mem_hexPane bytes h
  · have hne := shown_ne_newline ⟨b.toNat, b.isLt⟩
    rw [BitVec.ofNat_toNat, BitVec.setWidth_eq] at hne
    exact hne hb

theorem rowText_split {bytes : List (BitVec 8)} (h : bytes.length ≤ 16) :
    (rowText bytes).take 52 = hexPane bytes ∧ (rowText bytes).drop 52 = bytes.map shown := by
  have hlen := length_hexPane h
  rw [rowText, pane_showChar, ← hlen, List.take_left, List.drop_left]
  exact ⟨rfl, rfl⟩

/-! ### The dump -/

theorem flatten_rowBytes (data : List (BitVec 8)) (m : ℕ) :
    ((List.range m).map (rowBytes data)).flatten = data.take (16 * m) := by
  induction m with
  | zero => rfl
  | succ m ih =>
    rw [List.range_succ, List.map_append, List.flatten_append, ih, List.map_singleton,
      List.flatten_singleton, rowBytes, slice, ← List.take_add, Nat.mul_succ]

/-- The lines of a dump: the hexadecimal fields in the first 52 columns, the characters behind. -/
theorem formatHexAscii_aligned (oi : List Char) (data : List (BitVec 8))
    (hdata : data.length < 2 ^ 32 - 16) :
    ∃ lines : List (List Char),
      Returns (formatHexAscii oi data (BitVec.ofNat 64 data.length))
        (oi ++ ['\n'].intercalate lines) ∧
      lines.length = (data.length + 15) / 16 ∧ (∀ line ∈ lines, '\n' ∉ line) ∧
      (∀ k line, lines[k]? = some line →
        readHex (line.take 52) = some ((data.drop (16 * k)).take 16) ∧
        line.drop 52 = ((data.drop (16 * k)).take 16).map shown) ∧
      ∃ rows, lines.mapM (fun line => readHex (line.take 52)) = some rows ∧
        rows.flatten = data := by
  have hrow (k : ℕ) : (rowBytes data k).length ≤ 16 := by
    rw [length_rowBytes]
    exact Nat.min_le_left ..
  have hread (k : ℕ) : readHex ((rowText (rowBytes data k)).take 52) = some (rowBytes data k) := by
    rw [(rowText_split (hrow k)).1, readHex_hexPane]
  refine ⟨rowTexts data, formatHexAscii_returns hdata oi, ?_, ?_, ?_, ?_⟩
  · rw [rowTexts, List.length_map, List.length_range, rowCount]
  · intro line hline
    obtain ⟨k, _, rfl⟩ := List.mem_map.mp hline
    exact newline_not_mem_rowText _
  · intro k line hline
    rw [rowTexts, List.getElem?_map, Option.map_eq_some_iff] at hline
    obtain ⟨j, hj, rfl⟩ := hline
    obtain ⟨_, hjk⟩ := List.getElem?_eq_some_iff.mp hj
    rw [List.getElem_range] at hjk
    rw [← hjk]
    exact ⟨hread k, (rowText_split (hrow k)).2⟩
  · refine ⟨(List.range (rowCount data.length)).map (rowBytes data), ?_, ?_⟩
    · have hpure : ((fun line => readHex (line.take 52)) ∘ fun k => rowText (rowBytes data k)) =
          fun k => pure (rowBytes data k) := funext hread
      rw [rowTexts, List.mapM_map, hpure, List.mapM_pure]
      rfl
    · rw [flatten_rowBytes, List.take_of_length_le]
      unfold rowCount
      omega

/-- A full row and a row of three bytes. -/
def sampleDump : List (BitVec 8) :=
  [0x45, 0x00, 0x00, 0x13, 0x2A, 0x0A, 0x00, 0x00, 0x40, 0x11, 0xB7, 0xD9, 0x0A, 0x00, 0x00, 0x01,
    0x6D, 0x0A, 0x7F]

theorem formatHexAscii_aligned_example : ∃ lines : List (List Char),
    Returns (formatHexAscii ['>'] sampleDump (BitVec.ofNat 64 sampleDump.length))
      (['>'] ++ ['\n'].intercalate lines) ∧
      lines.length = (sampleDump.length + 15) / 16 ∧ (∀ line ∈ lines, '\n' ∉ line) ∧
      (∀ k line, lines[k]? = some line →
        readHex (line.take 52) = some ((sampleDump.drop (16 * k)).take 16) ∧
        line.drop 52 = ((sampleDump.drop (16 * k)).take 16).map shown) ∧
      ∃ rows, lines.mapM (fun line => readHex (line.take 52)) = some rows ∧
        rows.flatten = sampleDump :=
  formatHexAscii_aligned ['>'] sampleDump (by decide)

end HexAsciiBlock

end Pimc
