import Mathlib.Data.List.Basic
import Mathlib.Data.List.GetD
import Pimc.Lib.ByteOrder

/-!
# Packed records in a byte memory

A record is a run of bytes, and the assignments to its fields are images laid
over it. An access outside the memory is an error.
-/

namespace Pimc.Lib

/-! ### Fields -/

/-- An assignment to a field of a packed record, by the offset of the field; a
bit-field also has its lowest bit and its width. -/
inductive Assign where
  | u8 (off : ℕ) (v : Byte)
  | u16 (off : ℕ) (v : BitVec 16)
  | u32 (off : ℕ) (v : BitVec 32)
  | bits (off lo width : ℕ) (v : Byte)
  deriving DecidableEq, Repr

def overlay (off : ℕ) (image bs : List Byte) : List Byte :=
  bs.take off ++ image ++ bs.drop (off + image.length)

/-- The byte `b` with the bits `lo`, …, `lo + width - 1` replaced by the low bits of `v`. -/
def insertBits (lo width : ℕ) (v b : Byte) : Byte :=
  let mask : Byte := BitVec.ofNat 8 (2 ^ width - 1) <<< lo
  (b &&& ~~~mask) ||| ((v <<< lo) &&& mask)

def Assign.run (bs : List Byte) : Assign → List Byte
  | u8 off v => overlay off [v] bs
  | u16 off v => overlay off (image16 v) bs
  | u32 off v => overlay off (image32 v) bs
  | bits off lo width v => bs.modify off (insertBits lo width v)

/-! ### Memory -/

inductive MemError where
  | outside
  | raised (what : String)
  deriving DecidableEq, Repr

abbrev MemM := StateT (List Byte) (Except MemError)

def loadAt (off n : ℕ) : MemM (List Byte) := fun mem =>
  if off + n ≤ mem.length then .ok ((mem.drop off).take n, mem) else .error .outside

def assignAt (off n : ℕ) (fields : List Assign) : MemM Unit := fun mem =>
  if off + n ≤ mem.length then
    .ok ((), mem.take off ++ fields.foldl Assign.run ((mem.drop off).take n) ++ mem.drop (off + n))
  else .error .outside

def raise {α : Type} (what : String) : MemM α := fun _ => .error (.raised what)

theorem run_bind_ok {α β : Type} {x : MemM α} {k : α → MemM β} {mem mem' : List Byte} {a : α}
    (h : x.run mem = .ok (a, mem')) : (x >>= k).run mem = (k a).run mem' := by
  rw [StateT.run_bind, h]
  rfl

theorem loadAt_run (front bs back : List Byte) :
    (loadAt front.length bs.length).run (front ++ bs ++ back) = .ok (bs, front ++ bs ++ back) := by
  have hfit : front.length + bs.length ≤ (front ++ bs ++ back).length := by
    simp only [List.length_append]
    omega
  have htaken : ((front ++ bs ++ back).drop front.length).take bs.length = bs := by
    simp
  simp only [loadAt, StateT.run, if_pos hfit, htaken]

theorem assignAt_run (front bs back : List Byte) (fields : List Assign) :
    (assignAt front.length bs.length fields).run (front ++ bs ++ back) =
      .ok ((), front ++ fields.foldl Assign.run bs ++ back) := by
  have hfit : front.length + bs.length ≤ (front ++ bs ++ back).length := by
    simp only [List.length_append]
    omega
  have hfront : (front ++ bs ++ back).take front.length = front := by
    simp
  have htaken : ((front ++ bs ++ back).drop front.length).take bs.length = bs := by
    simp
  have hback : (front ++ bs ++ back).drop (front.length + bs.length) = back := by
    rw [← List.length_append, List.drop_left]
  simp only [assignAt, StateT.run, if_pos hfit, hfront, htaken, hback]

def storeAt (off : ℕ) (image : List Byte) : MemM Unit := fun mem =>
  if off + image.length ≤ mem.length then .ok ((), overlay off image mem) else .error .outside

theorem storeAt_run {off : ℕ} (front bs back image : List Byte) (hoff : front.length = off)
    (hlen : image.length = bs.length) :
    (storeAt off image).run (front ++ (bs ++ back)) = .ok ((), front ++ (image ++ back)) := by
  have hfit : off + image.length ≤ (front ++ (bs ++ back)).length := by
    simp only [List.length_append]
    omega
  have hfront : (front ++ (bs ++ back)).take off = front := List.take_left' hoff
  have hback : (front ++ (bs ++ back)).drop (off + image.length) = back := by
    rw [← List.append_assoc, List.drop_left' (by rw [List.length_append, hoff, hlen])]
  simp only [storeAt, StateT.run, if_pos hfit, overlay, hfront, hback, List.append_assoc]

/-! ### Reads of a memory that does not change -/

abbrev ReadM := ReaderT (List Byte) (Except MemError)

def u8At (off : ℕ) : ReadM Byte := fun mem =>
  if h : off < mem.length then .ok (mem.get ⟨off, h⟩) else .error .outside

def u16At (off : ℕ) : ReadM (BitVec 16) := do
  let b0 ← u8At off
  let b1 ← u8At (off + 1)
  return load16 b0 b1

def u32At (off : ℕ) : ReadM (BitVec 32) := do
  let b0 ← u8At off
  let b1 ← u8At (off + 1)
  let b2 ← u8At (off + 2)
  let b3 ← u8At (off + 3)
  return load32 b0 b1 b2 b3

def u64At (off : ℕ) : ReadM (BitVec 64) := do
  let low ← u32At off
  let high ← u32At (off + 4)
  return high ++ low

/-- The bits `lo`, …, `lo + width - 1` of a byte. -/
def extractBits (lo width : ℕ) (b : Byte) : Byte := (b >>> lo) &&& BitVec.ofNat 8 (2 ^ width - 1)

theorem read_bind_ok {α β : Type} {x : ReadM α} {k : α → ReadM β} {mem : List Byte} {a : α}
    (h : x.run mem = .ok a) : (x >>= k).run mem = (k a).run mem := by
  rw [ReaderT.run_bind, h]
  rfl

/-! ### What a computation may return -/

section Yields

variable {α β : Type} {x : ReadM α} {k : α → ReadM β} {P : α → Prop} {Q : β → Prop}

/-- Whatever the memory, a value that `x` returns satisfies `P`. -/
def Yields (x : ReadM α) (P : α → Prop) : Prop := ∀ mem a, x.run mem = .ok a → P a

theorem Yields.pure {a : α} (h : P a) : Yields (pure a) P := by
  intro mem a' hrun
  obtain rfl := Except.ok.inj hrun
  exact h

theorem Yields.bind (hx : Yields x P) (hk : ∀ a, P a → Yields (k a) Q) : Yields (x >>= k) Q := by
  intro mem b hrun
  rw [ReaderT.run_bind] at hrun
  cases hxrun : x.run mem with
  | error e =>
    rw [hxrun] at hrun
    cases hrun
  | ok a =>
    rw [hxrun] at hrun
    exact hk a (hx mem a hxrun) mem b hrun

/-- The value of `x` does not matter. -/
theorem Yields.read (hk : ∀ a, Yields (k a) Q) : Yields (x >>= k) Q :=
  Yields.bind (P := fun _ => True) (fun _ _ _ => trivial) fun a _ => hk a

theorem Yields.ite {c : Prop} [Decidable c] {y : ReadM α} (hx : c → Yields x P)
    (hy : ¬ c → Yields y P) : Yields (if c then x else y) P := by
  split_ifs with h
  · exact hx h
  · exact hy h

end Yields

/-! ### Words in network byte order -/

/-- The words that stand at an offset in network byte order; bytes beyond the end are 0. -/
def byteAt (mem : List Byte) (off : ℕ) : Byte := mem.getD off 0

def beAt16 (mem : List Byte) (off : ℕ) : BitVec 16 := byteAt mem off ++ byteAt mem (off + 1)

def beAt32 (mem : List Byte) (off : ℕ) : BitVec 32 :=
  byteAt mem off ++ byteAt mem (off + 1) ++ byteAt mem (off + 2) ++ byteAt mem (off + 3)

def beAt64 (mem : List Byte) (off : ℕ) : BitVec 64 := beAt32 mem off ++ beAt32 mem (off + 4)

theorem u8At_run (mem : List Byte) (off : ℕ) (h : off < mem.length) :
    (u8At off).run mem = .ok (byteAt mem off) := by
  simp only [u8At, ReaderT.run, dif_pos h, byteAt, List.get_eq_getElem]
  rw [List.getD_eq_getElem mem 0 h]

theorem u16At_run (mem : List Byte) (off : ℕ) (h : off + 2 ≤ mem.length) :
    ∃ v, (u16At off).run mem = .ok v ∧ ntohs v = beAt16 mem off := by
  refine ⟨load16 (byteAt mem off) (byteAt mem (off + 1)), ?_, ntohs_load16 _ _⟩
  unfold u16At
  rw [read_bind_ok (u8At_run _ _ (by omega)), read_bind_ok (u8At_run _ _ (by omega))]
  rfl

theorem u32At_load (mem : List Byte) (off : ℕ) (h : off + 4 ≤ mem.length) :
    (u32At off).run mem = .ok (load32 (byteAt mem off) (byteAt mem (off + 1))
      (byteAt mem (off + 2)) (byteAt mem (off + 3))) := by
  unfold u32At
  rw [read_bind_ok (u8At_run _ _ (by omega)), read_bind_ok (u8At_run _ _ (by omega)),
    read_bind_ok (u8At_run _ _ (by omega)), read_bind_ok (u8At_run _ _ (by omega))]
  rfl

theorem u32At_run (mem : List Byte) (off : ℕ) (h : off + 4 ≤ mem.length) :
    ∃ v, (u32At off).run mem = .ok v ∧ ntohl v = beAt32 mem off :=
  ⟨_, u32At_load mem off h, ntohl_load32 _ _ _ _⟩

theorem u64At_run (mem : List Byte) (off : ℕ) (h : off + 8 ≤ mem.length) :
    ∃ v, (u64At off).run mem = .ok v ∧ be64toh v = beAt64 mem off := by
  refine ⟨_, ?_, be64toh_load64 _ _ _ _ _ _ _ _⟩
  unfold u64At
  rw [read_bind_ok (u32At_load _ _ (by omega)), read_bind_ok (u32At_load _ _ (by omega))]
  rfl

theorem byteAt_append_right (front back : List Byte) (off : ℕ) :
    byteAt (front ++ back) (front.length + off) = byteAt back off := by
  unfold byteAt
  rw [List.getD_append_right _ _ _ _ (Nat.le_add_right _ _), Nat.add_sub_cancel_left]

/-- The bytes of a slice. -/
theorem byteAt_slice {mem : List Byte} {start size off : ℕ} (h : off < size) :
    byteAt ((mem.drop start).take size) off = byteAt mem (start + off) := by
  unfold byteAt
  rw [List.getD_eq_getElem?_getD, List.getD_eq_getElem?_getD, List.getElem?_take_of_lt h,
    List.getElem?_drop]

theorem beAt16_slice {mem : List Byte} {start size off : ℕ} (h : off + 2 ≤ size) :
    beAt16 ((mem.drop start).take size) off = beAt16 mem (start + off) := by
  unfold beAt16
  rw [byteAt_slice (by omega), byteAt_slice (by omega)]
  rfl

theorem beAt32_slice {mem : List Byte} {start size off : ℕ} (h : off + 4 ≤ size) :
    beAt32 ((mem.drop start).take size) off = beAt32 mem (start + off) := by
  unfold beAt32
  rw [byteAt_slice (by omega), byteAt_slice (by omega), byteAt_slice (by omega),
    byteAt_slice (by omega)]
  rfl

theorem beAt64_slice {mem : List Byte} {start size off : ℕ} (h : off + 8 ≤ size) :
    beAt64 ((mem.drop start).take size) off = beAt64 mem (start + off) := by
  unfold beAt64
  rw [beAt32_slice (by omega), beAt32_slice (by omega)]
  rfl

end Pimc.Lib
