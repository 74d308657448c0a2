import Mathlib.Algebra.Order.Ring.Nat
import Mathlib.Data.Int.Notation
import Mathlib.Tactic.Common

/-!
# Packet views (lib/pimc/packets/PacketView.hpp)

A pointer is an offset into a memory, and `std::size_t` has 64 bits. The viewer
of `take` is represented by the position it is invoked on.
-/

namespace Pimc

abbrev SizeT := BitVec 64

/-- The fields that both views have. -/
structure DataView (Pos : Type) where
  data : Pos
  len_ : SizeT
  taken_ : SizeT
  deriving DecidableEq, Repr

/-- What a call does: the value it returns, the position it invokes the viewer on, if it
does, and the view it leaves. -/
structure ViewCall (Pos : Type) where
  returned : Bool
  viewed : Option Pos
  view : DataView Pos
  deriving DecidableEq, Repr

namespace DataView

variable {Pos : Type}

def mk' (data : Pos) (len : SizeT) : DataView Pos := ⟨data, len, 0⟩

def len (pv : DataView Pos) : SizeT := pv.len_

def taken (pv : DataView Pos) : SizeT := pv.taken_

def remaining (pv : DataView Pos) : SizeT := pv.len_ - pv.taken_

/-- The body of `take` and of `skip`: the test on the size, and what the viewer gets. -/
def advance (pv : DataView Pos) (sz : SizeT) (viewed : Option Pos) : ViewCall Pos :=
  if pv.taken_ + sz ≤ pv.len_ then ⟨true, viewed, { pv with taken_ := pv.taken_ + sz }⟩
  else ⟨false, none, pv⟩

end DataView

abbrev PacketView := DataView ℕ

abbrev ReversePacketView := DataView ℤ

namespace PacketView

def take (pv : PacketView) (sz : SizeT) : ViewCall ℕ :=
  pv.advance sz (some (pv.data + pv.taken_.toNat))

def skip (pv : PacketView) (sz : SizeT) : ViewCall ℕ :=
  pv.advance sz none

end PacketView

namespace ReversePacketView

def take (pv : ReversePacketView) (sz : SizeT) : ViewCall ℤ :=
  pv.advance sz (some (pv.data - pv.taken_.toNat - sz.toNat))

def skip (pv : ReversePacketView) (sz : SizeT) : ViewCall ℤ :=
  pv.advance sz none

end ReversePacketView

/-! ### Sequences of calls -/

inductive ViewOp where
  | take (sz : SizeT)
  | skip (sz : SizeT)
  deriving DecidableEq, Repr

namespace ViewOp

def size : ViewOp → SizeT
  | take sz => sz
  | skip sz => sz

def views : ViewOp → Bool
  | take _ => true
  | skip _ => false

end ViewOp

def PacketView.call (pv : PacketView) : ViewOp → ViewCall ℕ
  | .take sz => pv.take sz
  | .skip sz => pv.skip sz

def ReversePacketView.call (pv : ReversePacketView) : ViewOp → ViewCall ℤ
  | .take sz => pv.take sz
  | .skip sz => pv.skip sz

namespace DataView

variable {Pos : Type} {call : DataView Pos → ViewOp → ViewCall Pos}

/-- The view that a sequence of calls leaves. -/
def afterCalls (call : DataView Pos → ViewOp → ViewCall Pos) (pv : DataView Pos)
    (ops : List ViewOp) : DataView Pos :=
  ops.foldl (fun pv op => (call pv op).view) pv

/-- `P` holds of every call of a sequence, on the view it is made on. -/
def EveryCall (call : DataView Pos → ViewOp → ViewCall Pos) (P : DataView Pos → ViewOp → Prop)
    (pv : DataView Pos) (ops : List ViewOp) : Prop :=
  ∀ pre op post, ops = pre ++ op :: post → P (afterCalls call pv pre) op

theorem everyCall_nil {P : DataView Pos → ViewOp → Prop} (pv : DataView Pos) :
    EveryCall call P pv [] := by
  intro pre op post hops
  cases pre <;> simp at hops

theorem everyCall_cons {P : DataView Pos → ViewOp → Prop} (pv : DataView Pos) (op : ViewOp)
    (ops : List ViewOp) :
    EveryCall call P pv (op :: ops) ↔ P pv op ∧ EveryCall call P (call pv op).view ops := by
  apply Iff.intro
  · intro h
    have htail : EveryCall call P (call pv op).view ops := by
      intro pre op' post hops
      exact h (op :: pre) op' post (by rw [hops]; rfl)
    exact ⟨h [] op ops rfl, htail⟩
  · intro h pre op' post hops
    obtain ⟨hhead, htail⟩ := h
    cases pre with
    | nil =>
      obtain ⟨rfl, rfl⟩ := List.cons.inj hops
      exact hhead
    | cons op'' pre =>
      obtain ⟨rfl, hrest⟩ := List.cons.inj hops
      exact htail pre op' post hrest

/-! ### The promise of a call -/

/-- `inside` says that so many bytes from a position on lie inside the data of the view. -/
structure CallExact (call : DataView Pos → ViewOp → ViewCall Pos)
    (inside : DataView Pos → Pos → ℕ → Prop) (pv : DataView Pos) (op : ViewOp) : Prop where
  len : (call pv op).view.len = pv.len
  taken_le : (call pv op).view.taken.toNat ≤ pv.len.toNat
  remaining : (call pv op).view.remaining.toNat = pv.len.toNat - (call pv op).view.taken.toNat
  returned : (call pv op).returned = true ↔ op.size.toNat ≤ pv.remaining.toNat
  accepted : (call pv op).returned = true →
    (call pv op).view.taken.toNat = pv.taken.toNat + op.size.toNat ∧
      (call pv op).viewed.isSome = op.views ∧
      ∀ p ∈ (call pv op).viewed, inside pv p op.size.toNat
  refused : (call pv op).returned = false → (call pv op).viewed = none ∧ (call pv op).view = pv

/-- The sum of the size taken and the size of the call has more than 64 bits. -/
def Wraps (pv : DataView Pos) (op : ViewOp) : Prop :=
  2 ^ 64 ≤ pv.taken.toNat + op.size.toNat

instance (pv : DataView Pos) (op : ViewOp) : Decidable (Wraps pv op) :=
  inferInstanceAs (Decidable (2 ^ 64 ≤ pv.taken.toNat + op.size.toNat))

theorem remaining_toNat {pv : DataView Pos} (hpv : pv.taken_.toNat ≤ pv.len_.toNat) :
    pv.remaining.toNat = pv.len_.toNat - pv.taken_.toNat :=
  BitVec.toNat_sub_of_le (BitVec.le_def.mpr hpv)

/-- The test of `take` and `skip` on a sum that does not wrap. -/
theorem test_iff {pv : DataView Pos} {sz : SizeT} (hpv : pv.taken_.toNat ≤ pv.len_.toNat)
    (hsum : pv.taken_.toNat + sz.toNat < 2 ^ 64) :
    pv.taken_ + sz ≤ pv.len_ ↔ sz.toNat ≤ pv.remaining.toNat := by
  rw [BitVec.le_def, BitVec.toNat_add_of_lt hsum, remaining_toNat hpv]
  omega

theorem advance_accept {pv : DataView Pos} {sz : SizeT} (viewed : Option Pos)
    (h : pv.taken_.toNat + sz.toNat ≤ pv.len_.toNat) :
    pv.advance sz viewed = ⟨true, viewed, { pv with taken_ := pv.taken_ + sz }⟩ := by
  have hsum : pv.taken_.toNat + sz.toNat < 2 ^ 64 := Nat.lt_of_le_of_lt h pv.len_.isLt
  have htest : pv.taken_ + sz ≤ pv.len_ := by
    rw [BitVec.le_def, BitVec.toNat_add_of_lt hsum]
    exact h
  rw [advance, if_pos htest]

theorem advance_refuse {pv : DataView Pos} {sz : SizeT} (viewed : Option Pos)
    (hsum : pv.taken_.toNat + sz.toNat < 2 ^ 64)
    (h : pv.len_.toNat < pv.taken_.toNat + sz.toNat) :
    pv.advance sz viewed = ⟨false, none, pv⟩ := by
  have htest : ¬ pv.taken_ + sz ≤ pv.len_ := by
    rw [BitVec.le_def, BitVec.toNat_add_of_lt hsum]
    omega
  rw [advance, if_neg htest]

/-- A sum that wraps is below the size taken, so the test passes it. -/
theorem test_of_wrap {pv : DataView Pos} {sz : SizeT} (hpv : pv.taken_.toNat ≤ pv.len_.toNat)
    (hsum : 2 ^ 64 ≤ pv.taken_.toNat + sz.toNat) : pv.taken_ + sz ≤ pv.len_ := by
  have hsz := sz.isLt
  have htaken := pv.taken_.isLt
  rw [BitVec.le_def, BitVec.toNat_add]
  omega

/-! ### Calls that differ in the position only -/

/-- `take` and `skip` of a view whose viewer looks at `position`. -/
def callAt (position : DataView Pos → SizeT → Pos) (pv : DataView Pos) : ViewOp → ViewCall Pos
  | .take sz => pv.advance sz (some (position pv sz))
  | .skip sz => pv.advance sz none

variable {position : DataView Pos → SizeT → Pos} {inside : DataView Pos → Pos → ℕ → Prop}

/-- The position that a call hands to the viewer. -/
def opView (position : DataView Pos → SizeT → Pos) (pv : DataView Pos) : ViewOp → Option Pos
  | .take sz => some (position pv sz)
  | .skip _ => none

theorem callAt_eq (pv : DataView Pos) (op : ViewOp) :
    callAt position pv op = pv.advance op.size (opView position pv op) := by
  cases op <;> rfl

theorem callAt_accept {pv : DataView Pos} {op : ViewOp} (h : pv.taken_ + op.size ≤ pv.len_) :
    callAt position pv op =
      ⟨true, opView position pv op, { pv with taken_ := pv.taken_ + op.size }⟩ := by
  rw [callAt_eq, advance, if_pos h]

theorem callAt_refuse {pv : DataView Pos} {op : ViewOp} (h : ¬ pv.taken_ + op.size ≤ pv.len_) :
    callAt position pv op = ⟨false, none, pv⟩ := by
  rw [callAt_eq, advance, if_neg h]

theorem callExact_of_not_wraps {pv : DataView Pos} {op : ViewOp}
    (hinside : ∀ (pv : DataView Pos) (sz : SizeT), pv.taken_.toNat + sz.toNat ≤ pv.len_.toNat →
      inside pv (position pv sz) sz.toNat)
    (hpv : pv.taken_.toNat ≤ pv.len_.toNat) (hwraps : ¬ Wraps pv op) :
    CallExact (callAt position) inside pv op := by
  have hsum : pv.taken_.toNat + op.size.toNat < 2 ^ 64 := Nat.lt_of_not_le hwraps
  have htest := test_iff hpv hsum
  by_cases h : pv.taken_ + op.size ≤ pv.len_
  · have hcall : callAt position pv op = _ := callAt_accept h
    have hadd := BitVec.toNat_add_of_lt hsum
    have hle : pv.taken_.toNat + op.size.toNat ≤ pv.len_.toNat := by
      rw [← hadd]
      exact BitVec.le_def.mp h
    have hviewed : ∀ p ∈ opView position pv op, inside pv p op.size.toNat := by
      intro p hp
      cases op with
      | take sz =>
        obtain rfl := Option.some.inj hp
        exact hinside pv sz hle
      | skip sz => cases hp
    have hsome : (opView position pv op).isSome = op.views := by
      cases op <;> rfl
    rw [← hadd] at hle
    exact
      { len := by rw [hcall]; rfl
        taken_le := by rw [hcall]; exact hle
        remaining := by rw [hcall]; exact remaining_toNat hle
        returned := by rw [hcall]; exact iff_of_true rfl (htest.mp h)
        accepted := by
          intro _
          rw [hcall]
          exact ⟨hadd, hsome, hviewed⟩
        refused := by
          intro hfalse
          rw [hcall] at hfalse
          cases hfalse }
  · have hcall : callAt position pv op = _ := callAt_refuse h
    exact
      { len := by rw [hcall]
        taken_le := by rw [hcall]; exact hpv
        remaining := by rw [hcall]; exact remaining_toNat hpv
        returned := by rw [hcall]; exact iff_of_false Bool.false_ne_true (fun hle => h (htest.mpr hle))
        accepted := by
          intro htrue
          rw [hcall] at htrue
          cases htrue
        refused := by
          intro _
          rw [hcall]
          exact ⟨rfl, rfl⟩ }

theorem not_callExact_of_wraps {pv : DataView Pos} {op : ViewOp}
    (hpv : pv.taken_.toNat ≤ pv.len_.toNat) (hwraps : Wraps pv op) :
    ¬ CallExact (callAt position) inside pv op := by
  intro hexact
  have hreturned : (callAt position pv op).returned = true := by
    rw [callAt_accept (test_of_wrap hpv hwraps)]
  have hsize := hexact.returned.mp hreturned
  have hlen := pv.len_.isLt
  have hsum : 2 ^ 64 ≤ pv.taken_.toNat + op.size.toNat := hwraps
  rw [remaining_toNat hpv] at hsize
  omega

/-- Over a run: the calls keep their promises as long as no sum wraps, and no longer. -/
theorem everyCall_exact_iff
    (hinside : ∀ (pv : DataView Pos) (sz : SizeT), pv.taken_.toNat + sz.toNat ≤ pv.len_.toNat →
      inside pv (position pv sz) sz.toNat)
    (ops : List ViewOp) (pv : DataView Pos) (hpv : pv.taken_.toNat ≤ pv.len_.toNat) :
    EveryCall (callAt position) (CallExact (callAt position) inside) pv ops ↔
      EveryCall (callAt position) (fun pv op => ¬ Wraps pv op) pv ops := by
  induction ops generalizing pv with
  | nil => exact iff_of_true (everyCall_nil pv) (everyCall_nil pv)
  | cons op ops ih =>
    rw [everyCall_cons, everyCall_cons]
    by_cases hwraps : Wraps pv op
    · exact iff_of_false (fun h => not_callExact_of_wraps hpv hwraps h.1) (fun h => h.1 hwraps)
    · have hexact : CallExact (callAt position) inside pv op :=
        callExact_of_not_wraps hinside hpv hwraps
      have hview : (callAt position pv op).view.taken_.toNat ≤
          (callAt position pv op).view.len_.toNat := by
        have hle := hexact.taken_le
        rw [← hexact.len] at hle
        exact hle
      rw [ih _ hview]
      exact and_congr_left fun _ => iff_of_true hexact hwraps

end DataView

/-! ### The two views -/

namespace PacketView

def Inside (pv : PacketView) (p n : ℕ) : Prop :=
  pv.data ≤ p ∧ p + n ≤ pv.data + pv.len.toNat

def CallExact (pv : PacketView) (op : ViewOp) : Prop :=
  DataView.CallExact call Inside pv op

theorem call_eq : call = DataView.callAt fun pv _ => pv.data + pv.taken_.toNat := by
  funext pv op
  cases op <;> rfl

end PacketView

namespace ReversePacketView

def Inside (pv : ReversePacketView) (p : ℤ) (n : ℕ) : Prop :=
  pv.data - pv.len.toNat ≤ p ∧ p + n ≤ pv.data

def CallExact (pv : ReversePacketView) (op : ViewOp) : Prop :=
  DataView.CallExact call Inside pv op

theorem call_eq :
    call = DataView.callAt fun (pv : ReversePacketView) sz =>
      pv.data - pv.taken_.toNat - sz.toNat := by
  funext pv op
  cases op <;> rfl

end ReversePacketView

open DataView (EveryCall Wraps)

theorem packetViews_exact_iff (len : SizeT) (ops : List ViewOp) :
    (∀ data : ℕ, EveryCall PacketView.call PacketView.CallExact (.mk' data len) ops ↔
      EveryCall PacketView.call (fun pv op => ¬ Wraps pv op) (.mk' data len) ops) ∧
    (∀ data : ℤ, EveryCall ReversePacketView.call ReversePacketView.CallExact (.mk' data len) ops ↔
      EveryCall ReversePacketView.call (fun pv op => ¬ Wraps pv op) (.mk' data len) ops) := by
  apply And.intro
  · intro data
    unfold PacketView.CallExact
    rw [PacketView.call_eq]
    apply DataView.everyCall_exact_iff _ ops _ (Nat.zero_le _)
    intro pv sz hle
    simp only [PacketView.Inside, DataView.len]
    omega
  · intro data
    unfold ReversePacketView.CallExact
    rw [ReversePacketView.call_eq]
    apply DataView.everyCall_exact_iff _ ops _ (Nat.zero_le _)
    intro pv sz hle
    simp only [ReversePacketView.Inside, DataView.len]
    omega

/-- One byte of data: a `take` of one byte, and then one of `2 ^ 64 - 1` bytes, which is
accepted and takes the view back to the start. -/
theorem packetViews_wrap :
    PacketView.call (PacketView.call (.mk' 0 1) (.take 1)).view (.take (-1#64)) =
      ⟨true, some 1, .mk' 0 1⟩ ∧
    ¬ EveryCall PacketView.call PacketView.CallExact (.mk' 0 1) [.take 1, .take (-1#64)] ∧
    ¬ EveryCall ReversePacketView.call ReversePacketView.CallExact (.mk' 0 1)
      [.take 1, .take (-1#64)] := by
  refine ⟨by decide, ?_, ?_⟩
  · intro h
    have hreturned := (h [.take 1] (.take (-1#64)) [] rfl).returned
    revert hreturned
    decide
  · intro h
    have hreturned := (h [.take 1] (.take (-1#64)) [] rfl).returned
    revert hreturned
    decide

end Pimc
