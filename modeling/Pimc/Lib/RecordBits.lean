import Mathlib.Data.Nat.Bitwise
import Mathlib.Tactic.IntervalCases
import Pimc.Lib.ByteMemory

/-!
# The bits of a packed record

A field is a run of bits, the low bits of a byte first. An assignment sets the
bits of its field and no others, so fields that do not overlap are independent
of each other over every sequence of assignments.
-/

namespace Pimc.Lib

def bitAt (bs : List Byte) (i : ℕ) : Bool := (byteAt bs (i / 8)).getLsbD (i % 8)

structure Span where
  pos : ℕ
  width : ℕ
  deriving DecidableEq, Repr

namespace Span

def Has (s : Span) (i : ℕ) : Prop := s.pos ≤ i ∧ i < s.pos + s.width

instance (s : Span) (i : ℕ) : Decidable (s.Has i) := inferInstanceAs (Decidable (_ ∧ _))

def Apart (s t : Span) : Prop := s.pos + s.width ≤ t.pos ∨ t.pos + t.width ≤ s.pos

instance (s t : Span) : Decidable (s.Apart t) := inferInstanceAs (Decidable (_ ∨ _))

/-- The number that the bits stand for. -/
def value (s : Span) (bs : List Byte) : ℕ := Nat.ofBits fun k : Fin s.width => bitAt bs (s.pos + k)

end Span

/-- `n` bits from bit `8 * off` on stand for `v`. -/
theorem Span.value_eq_toNat {w : ℕ} {v : BitVec w} {bs : List Byte} {pos : ℕ}
    (h : ∀ k < w, bitAt bs (pos + k) = v.getLsbD k) : (Span.mk pos w).value bs = v.toNat := by
  have hbits : (fun k : Fin w => bitAt bs (pos + k)) = fun k : Fin w => v.toNat.testBit k :=
    funext fun k => h k k.isLt
  rw [value, hbits, Nat.ofBits_testBit, Nat.mod_eq_of_lt v.isLt]

theorem bitAt_byte (bs : List Byte) (off : ℕ) {k : ℕ} (hk : k < 8) :
    bitAt bs (8 * off + k) = (byteAt bs off).getLsbD k := by
  have hdiv : (8 * off + k) / 8 = off := by omega
  have hmod : (8 * off + k) % 8 = k := by omega
  rw [bitAt, hdiv, hmod]

/-! ### Assignments -/

/-- `image` is the value `v`, the low byte first. -/
def IsImage {w : ℕ} (v : BitVec w) (image : List Byte) : Prop :=
  w = 8 * image.length ∧ ∀ k < w, bitAt image k = v.getLsbD k

theorem byteAt_overlay {off : ℕ} {image bs : List Byte} (h : off + image.length ≤ bs.length)
    (j : ℕ) : byteAt (overlay off image bs) j =
      if off ≤ j ∧ j < off + image.length then byteAt image (j - off) else byteAt bs j := by
  have hfront : (bs.take off).length = off := List.length_take_of_le (by omega)
  unfold byteAt overlay
  rw [List.append_assoc]
  by_cases hlt : j < off
  · rw [if_neg (by omega), List.getD_append _ _ _ _ (by omega), List.getD_eq_getElem?_getD,
      List.getD_eq_getElem?_getD, List.getElem?_take_of_lt hlt]
  · rw [List.getD_append_right _ _ _ _ (by omega), hfront]
    by_cases hin : j < off + image.length
    · rw [if_pos (by omega), List.getD_append _ _ _ _ (by omega)]
    · rw [if_neg (by omega), List.getD_append_right _ _ _ _ (by omega),
        List.getD_eq_getElem?_getD, List.getD_eq_getElem?_getD, List.getElem?_drop]
      congr 2
      omega

theorem bitAt_overlay {w off : ℕ} {v : BitVec w} {image bs : List Byte} (hv : IsImage v image)
    (h : off + image.length ≤ bs.length) (i : ℕ) : bitAt (overlay off image bs) i =
      if (Span.mk (8 * off) w).Has i then v.getLsbD (i - 8 * off) else bitAt bs i := by
  obtain ⟨hw, hbits⟩ := hv
  rw [bitAt, byteAt_overlay h]
  by_cases hin : (Span.mk (8 * off) w).Has i
  · obtain ⟨hge, hlt⟩ := hin
    have hbyte : off ≤ i / 8 ∧ i / 8 < off + image.length := by
      simp only at hge hlt
      omega
    have hpos : i - 8 * off < w := by
      simp only at hlt
      omega
    have hdiv : (i - 8 * off) / 8 = i / 8 - off := by omega
    have hmod : (i - 8 * off) % 8 = i % 8 := by omega
    rw [if_pos hbyte, if_pos ⟨hge, hlt⟩, ← hbits _ hpos, bitAt, hdiv, hmod]
  · have hbyte : ¬ (off ≤ i / 8 ∧ i / 8 < off + image.length) := by
      simp only [Span.Has, hw] at hin
      omega
    rw [if_neg hbyte, if_neg hin, bitAt]

theorem bitAt_of_bytes (n off : ℕ) {w : ℕ} {v : BitVec w} {bs : List Byte} (hw : w = 8 * n)
    (h : ∀ j < n, byteAt bs (off + j) = v.extractLsb' (8 * j) 8) {k : ℕ} (hk : k < w) :
    bitAt bs (8 * off + k) = v.getLsbD k := by
  have hmod : k % 8 < 8 := Nat.mod_lt _ (by omega)
  have hpos : 8 * (k / 8) + k % 8 = k := Nat.div_add_mod k 8
  have hbyte : (8 * off + k) / 8 = off + k / 8 := by omega
  have hbit : (8 * off + k) % 8 = k % 8 := by omega
  rw [bitAt, hbyte, hbit, h _ (by omega), BitVec.getLsbD_extractLsb', hpos, decide_eq_true hmod,
    Bool.true_and]

theorem IsImage.of_bytes {w : ℕ} {v : BitVec w} {image : List Byte} (hw : w = 8 * image.length)
    (h : ∀ j < image.length, byteAt image j = v.extractLsb' (8 * j) 8) : IsImage v image := by
  refine ⟨hw, fun k hk => ?_⟩
  have hbytes : ∀ j < image.length, byteAt image (0 + j) = v.extractLsb' (8 * j) 8 := by
    intro j hj
    rw [Nat.zero_add, h j hj]
  have hbit := bitAt_of_bytes image.length 0 hw hbytes hk
  rwa [Nat.mul_zero, Nat.zero_add] at hbit

theorem isImage8 (v : Byte) : IsImage v [v] := by
  refine ⟨rfl, fun k hk => ?_⟩
  have hbyte := bitAt_byte [v] 0 hk
  rwa [Nat.mul_zero, Nat.zero_add] at hbyte

theorem isImage16 (v : BitVec 16) : IsImage v (image16 v) := by
  refine IsImage.of_bytes rfl fun j hj => ?_
  have hj2 : j < 2 := hj
  interval_cases j <;> rfl

theorem isImage32 (v : BitVec 32) : IsImage v (image32 v) := by
  refine IsImage.of_bytes rfl fun j hj => ?_
  have hj4 : j < 4 := hj
  interval_cases j <;> rfl

theorem getLsbD_insertBits {lo width : ℕ} (v b : Byte) {k : ℕ} (hk : k < 8) :
    (insertBits lo width v b).getLsbD k =
      if lo ≤ k ∧ k < lo + width then v.getLsbD (k - lo) else b.getLsbD k := by
  have hmask : (BitVec.ofNat 8 (2 ^ width - 1) <<< lo).getLsbD k =
      decide (lo ≤ k ∧ k < lo + width) := by
    rw [BitVec.getLsbD_shiftLeft, BitVec.getLsbD_ofNat, Nat.testBit_two_pow_sub_one,
      Bool.eq_iff_iff]
    simp only [Bool.and_eq_true, decide_eq_true_iff, Bool.not_eq_true', decide_eq_false_iff_not]
    omega
  rw [insertBits, BitVec.getLsbD_or, BitVec.getLsbD_and, BitVec.getLsbD_and, BitVec.getLsbD_not,
    hmask, BitVec.getLsbD_shiftLeft]
  by_cases hin : lo ≤ k ∧ k < lo + width
  · simp [hin, hk]
  · simp [hin, hk]

theorem byteAt_modify {bs : List Byte} {off : ℕ} (h : off < bs.length) (f : Byte → Byte) (j : ℕ) :
    byteAt (bs.modify off f) j = if j = off then f (byteAt bs off) else byteAt bs j := by
  unfold byteAt
  rw [List.getD_eq_getElem?_getD, List.getElem?_modify, List.getD_eq_getElem?_getD,
    List.getD_eq_getElem?_getD]
  by_cases hj : j = off
  · rw [if_pos hj, hj, List.getElem?_eq_getElem h]
    simp
  · simp [hj, Ne.symm hj]

namespace Assign

def span : Assign → Span
  | u8 off _ => ⟨8 * off, 8⟩
  | u16 off _ => ⟨8 * off, 16⟩
  | u32 off _ => ⟨8 * off, 32⟩
  | bits off lo width _ => ⟨8 * off + lo, width⟩

def value : Assign → ℕ
  | u8 _ v => v.toNat
  | u16 _ v => v.toNat
  | u32 _ v => v.toNat
  | bits _ _ _ v => v.toNat

/-- The field lies in a record of `n` bytes, and a bit-field in one byte. -/
def Fits (n : ℕ) : Assign → Prop
  | u8 off _ => off + 1 ≤ n
  | u16 off _ => off + 2 ≤ n
  | u32 off _ => off + 4 ≤ n
  | bits off lo width _ => off < n ∧ lo + width ≤ 8

theorem length_overlay {off : ℕ} {image bs : List Byte} (h : off + image.length ≤ bs.length) :
    (overlay off image bs).length = bs.length := by
  simp only [overlay, List.length_append, List.length_take, List.length_drop]
  omega

theorem length_run {bs : List Byte} {a : Assign} (h : a.Fits bs.length) :
    (a.run bs).length = bs.length := by
  cases a with
  | u8 off v => exact length_overlay h
  | u16 off v => exact length_overlay h
  | u32 off v => exact length_overlay h
  | bits off lo width v => exact List.length_modify ..

theorem bitAt_run {bs : List Byte} {a : Assign} (h : a.Fits bs.length) (i : ℕ) :
    bitAt (a.run bs) i = if a.span.Has i then a.value.testBit (i - a.span.pos) else bitAt bs i := by
  cases a with
  | u8 off v => exact bitAt_overlay (isImage8 v) h i
  | u16 off v => exact bitAt_overlay (isImage16 v) h i
  | u32 off v => exact bitAt_overlay (isImage32 v) h i
  | bits off lo width v =>
    obtain ⟨hoff, hbyte⟩ := h
    have hmod : i % 8 < 8 := Nat.mod_lt _ (by omega)
    show bitAt (bs.modify off (insertBits lo width v)) i = _
    rw [bitAt, byteAt_modify hoff]
    by_cases hi : i / 8 = off
    · rw [if_pos hi, getLsbD_insertBits v _ hmod]
      by_cases hin : lo ≤ i % 8 ∧ i % 8 < lo + width
      · have hhas : (Span.mk (8 * off + lo) width).Has i := by
          simp only [Span.Has]
          omega
        have hpos : i - (8 * off + lo) = i % 8 - lo := by omega
        rw [if_pos hin, span, if_pos hhas, hpos]
        rfl
      · have hnot : ¬ (Span.mk (8 * off + lo) width).Has i := by
          simp only [Span.Has]
          omega
        rw [if_neg hin, span, if_neg hnot, bitAt, hi]
    · have hnot : ¬ (Span.mk (8 * off + lo) width).Has i := by
        simp only [Span.Has]
        omega
      rw [if_neg hi, span, if_neg hnot, bitAt]

/-- An assignment gives its field the assigned value, cut to the width of the field. -/
theorem value_run {bs : List Byte} {a : Assign} (h : a.Fits bs.length) :
    a.span.value (a.run bs) = a.value % 2 ^ a.span.width := by
  have hbits : (fun k : Fin a.span.width => bitAt (a.run bs) (a.span.pos + k)) =
      fun k : Fin a.span.width => a.value.testBit k := by
    funext k
    have hhas : a.span.Has (a.span.pos + k) := ⟨Nat.le_add_right _ _, by have := k.isLt; omega⟩
    rw [bitAt_run h, if_pos hhas, Nat.add_sub_cancel_left]
  rw [Span.value, hbits, Nat.ofBits_testBit]

/-- It leaves the fields apart from its own alone. -/
theorem value_run_of_apart {bs : List Byte} {a : Assign} {s : Span} (h : a.Fits bs.length)
    (hs : s.Apart a.span) : s.value (a.run bs) = s.value bs := by
  have hbits : (fun k : Fin s.width => bitAt (a.run bs) (s.pos + k)) =
      fun k : Fin s.width => bitAt bs (s.pos + k) := by
    funext k
    have hk := k.isLt
    have hnot : ¬ a.span.Has (s.pos + k) := by
      rcases hs with hs | hs
      · exact fun hhas => absurd hhas.1 (by omega)
      · exact fun hhas => absurd hhas.2 (by omega)
    rw [bitAt_run h, if_neg hnot]
  rw [Span.value, hbits, Span.value]

end Assign

/-! ### Reads -/

/-- A bit-field of the byte at an offset. -/
structure BitField where
  off : ℕ
  lo : ℕ
  width : ℕ
  deriving DecidableEq, Repr

namespace BitField

def assign (b : BitField) (v : Byte) : Assign := .bits b.off b.lo b.width v

def readAt (b : BitField) (base : ℕ) : ReadM Byte := do
  let byte ← u8At (base + b.off)
  return extractBits b.lo b.width byte

end BitField

/-- The bits of `s` are read as a number. -/
def Span.Reads {w : ℕ} (s : Span) (x : ReadM (BitVec w)) (bs : List Byte) : Prop :=
  ∃ v, x.run bs = .ok v ∧ v.toNat = s.value bs

theorem Span.Reads.run_toNat {w : ℕ} {s : Span} {x : ReadM (BitVec w)} {bs : List Byte}
    (h : s.Reads x bs) : (BitVec.toNat <$> x).run bs = .ok (s.value bs) := by
  obtain ⟨v, hrun, hv⟩ := h
  rw [ReaderT.run_map, hrun, ← hv]
  rfl

theorem getLsbD_extractBits (lo width : ℕ) (b : Byte) {k : ℕ} (hwidth : width ≤ 8)
    (hk : k < width) :
    (extractBits lo width b).getLsbD k = b.getLsbD (lo + k) := by
  have hk8 : k < 8 := by omega
  rw [extractBits, BitVec.getLsbD_and, BitVec.getLsbD_ushiftRight, BitVec.getLsbD_ofNat,
    Nat.testBit_two_pow_sub_one, decide_eq_true hk8, decide_eq_true hk, Bool.and_self,
    Bool.and_true]

theorem extractBits_lt (lo width : ℕ) (b : Byte) : (extractBits lo width b).toNat < 2 ^ width := by
  have hmask : (BitVec.ofNat 8 (2 ^ width - 1)).toNat ≤ 2 ^ width - 1 := Nat.mod_le _ _
  have hand : (extractBits lo width b).toNat ≤ (BitVec.ofNat 8 (2 ^ width - 1)).toNat :=
    Nat.and_le_right
  have hpos := Nat.two_pow_pos width
  omega

theorem u8At_reads {bs : List Byte} {off : ℕ} (h : off + 1 ≤ bs.length) :
    (Span.mk (8 * off) 8).Reads (u8At off) bs :=
  ⟨_, u8At_run bs off h, (Span.value_eq_toNat fun _ hk => bitAt_byte bs off hk).symm⟩

theorem u16At_reads {bs : List Byte} {off : ℕ} (h : off + 2 ≤ bs.length) :
    (Span.mk (8 * off) 16).Reads (u16At off) bs := by
  refine ⟨load16 (byteAt bs off) (byteAt bs (off + 1)), ?_, ?_⟩
  · unfold u16At
    rw [read_bind_ok (u8At_run _ _ (by omega)), read_bind_ok (u8At_run _ _ (by omega))]
    rfl
  · refine (Span.value_eq_toNat fun k hk => ?_).symm
    refine bitAt_of_bytes 2 off rfl (fun j hj => ?_) hk
    interval_cases j <;>
    · ext i hi
      simp [load16]
      grind

theorem u32At_reads {bs : List Byte} {off : ℕ} (h : off + 4 ≤ bs.length) :
    (Span.mk (8 * off) 32).Reads (u32At off) bs := by
  refine ⟨_, u32At_load bs off h, ?_⟩
  refine (Span.value_eq_toNat fun k hk => ?_).symm
  refine bitAt_of_bytes 4 off rfl (fun j hj => ?_) hk
  interval_cases j <;>
  · ext i hi
    simp [load32]
    grind

theorem BitField.reads {bs : List Byte} {b : BitField} (hoff : b.off < bs.length)
    (hbyte : b.lo + b.width ≤ 8) : (Span.mk (8 * b.off + b.lo) b.width).Reads (b.readAt 0) bs := by
  obtain ⟨off, lo, width⟩ := b
  simp only at hoff hbyte
  refine ⟨extractBits lo width (byteAt bs off), ?_, ?_⟩
  · unfold readAt
    rw [Nat.zero_add, read_bind_ok (u8At_run _ _ hoff)]
    rfl
  · have hbits : ∀ k < width, bitAt bs (8 * off + lo + k) =
        ((extractBits lo width (byteAt bs off)).setWidth width).getLsbD k := by
      intro k hk
      rw [Nat.add_assoc, bitAt_byte bs off (by omega), BitVec.getLsbD_setWidth, decide_eq_true hk,
        Bool.true_and, getLsbD_extractBits lo width _ (by omega) hk]
    rw [Span.value_eq_toNat hbits, BitVec.toNat_setWidth,
      Nat.mod_eq_of_lt (extractBits_lt lo width _)]

/-! ### Records -/

/-- The fields of a record, which do not overlap. -/
structure Layout (F : Type) where
  span : F → Span
  apart : ∀ f g, f ≠ g → (span f).Apart (span g)

namespace Layout

variable {F : Type}

/-- An assignment to a field of the record of `n` bytes. -/
structure Writes (L : Layout F) (n : ℕ) (w : F × Assign) : Prop where
  span : w.2.span = L.span w.1
  fits : w.2.Fits n

theorem length_run {L : Layout F} {n : ℕ} {ws : List (F × Assign)} (hws : ∀ w ∈ ws, L.Writes n w)
    {bs : List Byte} (hbs : bs.length = n) :
    ((ws.map Prod.snd).foldl Assign.run bs).length = n := by
  induction ws using List.reverseRecOn with
  | nil => exact hbs
  | append_singleton ws w ih =>
    have hfront := ih fun u hu => hws u (List.mem_append_left _ hu)
    have hfits := (hws w (List.mem_append_right _ (List.mem_singleton_self w))).fits
    rw [List.map_append, List.foldl_append]
    exact (Assign.length_run (hfront ▸ hfits)).trans hfront

end Layout

section LastWrite

variable {F : Type} [DecidableEq F]

def lastWrite (f : F) (ws : List (F × ℕ)) : Option ℕ :=
  ws.foldl (fun last w => if w.1 = f then some w.2 else last) none

theorem lastWrite_concat (f : F) (ws : List (F × ℕ)) (w : F × ℕ) :
    lastWrite f (ws ++ [w]) = if w.1 = f then some w.2 else lastWrite f ws := by
  rw [lastWrite, List.foldl_append, List.foldl_cons, List.foldl_nil, lastWrite]

theorem lastWrite_append (f : F) (us ws : List (F × ℕ)) :
    lastWrite f (us ++ ws) = (lastWrite f ws).or (lastWrite f us) := by
  induction ws using List.reverseRecOn with
  | nil => rw [List.append_nil]; rfl
  | append_singleton ws w ih =>
    rw [← List.append_assoc, lastWrite_concat, lastWrite_concat, ih]
    by_cases hw : w.1 = f
    · rw [if_pos hw, if_pos hw, Option.some_or]
    · rw [if_neg hw, if_neg hw]

/-- Two sequences of writes that agree on a field, up to `m`, give the same last value. -/
theorem lastWrite_congr {G A β : Type} [DecidableEq G] {f : F} {g : G} {p : A → F × ℕ}
    {q : A → G × ℕ} {m : ℕ → β} {as : List A}
    (h : ∀ a ∈ as, ((p a).1 = f ↔ (q a).1 = g) ∧ ((p a).1 = f → m (p a).2 = m (q a).2)) :
    (lastWrite f (as.map p)).map m = (lastWrite g (as.map q)).map m := by
  induction as using List.reverseRecOn with
  | nil => rfl
  | append_singleton as a ih =>
    obtain ⟨hfield, hvalue⟩ := h a (List.mem_append_right _ (List.mem_singleton_self a))
    have hfront := ih fun b hb => h b (List.mem_append_left _ hb)
    rw [List.map_append, List.map_singleton, List.map_append, List.map_singleton, lastWrite_concat,
      lastWrite_concat]
    by_cases ha : (p a).1 = f
    · rw [if_pos ha, if_pos (hfield.mp ha), Option.map_some, Option.map_some, hvalue ha]
    · rw [if_neg ha, if_neg (mt hfield.mpr ha), hfront]

theorem lastWrite_eq_none {f : F} {ws : List (F × ℕ)} (h : ∀ w ∈ ws, w.1 ≠ f) :
    lastWrite f ws = none := by
  induction ws using List.reverseRecOn with
  | nil => rfl
  | append_singleton ws w ih =>
    rw [lastWrite_concat, if_neg (h w (List.mem_append_right _ (List.mem_singleton_self w)))]
    exact ih fun u hu => h u (List.mem_append_left _ hu)

theorem lastWrite_ne_none {f : F} {ws : List (F × ℕ)} {w : F × ℕ} (hw : w ∈ ws) (hf : w.1 = f) :
    lastWrite f ws ≠ none := by
  induction ws using List.reverseRecOn with
  | nil => exact absurd hw List.not_mem_nil
  | append_singleton ws u ih =>
    rw [lastWrite_concat]
    by_cases hu : u.1 = f
    · rw [if_pos hu]
      exact Option.some_ne_none _
    · rw [if_neg hu]
      rcases List.mem_append.mp hw with hw | hw
      · exact ih hw
      · exact absurd (List.mem_singleton.mp hw ▸ hf) hu

/-- After a sequence of assignments a field has the last value assigned to it, or its old one. -/
theorem Layout.value_run {L : Layout F} {n : ℕ} {ws : List (F × Assign)}
    (hws : ∀ w ∈ ws, L.Writes n w) {bs : List Byte} (hbs : bs.length = n) (f : F) :
    (L.span f).value ((ws.map Prod.snd).foldl Assign.run bs) =
      ((lastWrite f (ws.map fun w => (w.1, w.2.value))).map (· % 2 ^ (L.span f).width)).getD
        ((L.span f).value bs) := by
  induction ws using List.reverseRecOn with
  | nil => rfl
  | append_singleton ws w ih =>
    have hfront : ∀ u ∈ ws, L.Writes n u := fun u hu => hws u (List.mem_append_left _ hu)
    obtain ⟨hspan, hfits⟩ := hws w (List.mem_append_right _ (List.mem_singleton_self w))
    rw [← Layout.length_run hfront hbs] at hfits
    have hrun : ((ws ++ [w]).map Prod.snd).foldl Assign.run bs =
        w.2.run ((ws.map Prod.snd).foldl Assign.run bs) := by
      rw [List.map_append, List.foldl_append]
      rfl
    have hvalues : (ws ++ [w]).map (fun w => (w.1, w.2.value)) =
        ws.map (fun w => (w.1, w.2.value)) ++ [(w.1, w.2.value)] := List.map_append
    rw [hrun, hvalues, lastWrite_concat]
    by_cases hw : w.1 = f
    · rw [if_pos hw, ← hw, ← hspan]
      exact Assign.value_run hfits
    · have hapart : (L.span f).Apart w.2.span := hspan ▸ L.apart f w.1 (Ne.symm hw)
      rw [if_neg hw, Assign.value_run_of_apart hfits hapart, ih hfront]

end LastWrite

end Pimc.Lib
