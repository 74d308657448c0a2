import Pimc.Lib.Outcome
import Pimc.Pimsm.Update

/-!
# Update builders and the cursor over their queue (pimsm/UBCursor.hpp)

`UpdateBuilderImpl` of `pimsm/Pack.hpp` and `InverseUpdateBuilderImpl` of
`pimsm/InversePack.hpp` have the same members and the same bodies; they are one
structure here. The cursor refers to the queue and to the start index of its
packer by pointer and reference, so the model hands both over to the cursor and
takes them back when the cursor is done.
-/

namespace Pimc

open Lib Params

variable {A : Type}

/-- `class UpdateBuilderImpl`. -/
structure UpdateBuilderImpl (A : Type) where
  groups : List (GroupEntry A)
  sz : ℕ
  deriving DecidableEq, Repr

namespace UpdateBuilderImpl

/-- The constructor. -/
def init : UpdateBuilderImpl A := ⟨[], 0⟩

/-- `chkSz`: throws `std::logic_error` if an entry of size `sz` does not fit. -/
def chkSz (ub : UpdateBuilderImpl A) (sz : ℕ) : Outcome String Unit :=
  if ub.sz + sz > JPCapacity then
    .throws s!"pim-update capacity {JPCapacity}, current size {ub.sz}, update size {sz}"
  else .ret ()

def add (ub : UpdateBuilderImpl A) (group : GroupEntry A) (sz : ℕ) :
    Outcome String (UpdateBuilderImpl A) := do
  ub.chkSz sz
  return { groups := ub.groups ++ [group], sz := ub.sz + sz }

def size (ub : UpdateBuilderImpl A) : ℕ := ub.sz

def remaining (ub : UpdateBuilderImpl A) : ℕ := sizeSub JPCapacity ub.sz

def empty (ub : UpdateBuilderImpl A) : Bool := ub.groups.isEmpty

def full (ub : UpdateBuilderImpl A) : Bool := ub.remaining < MinEntrySize

def build (ub : UpdateBuilderImpl A) : Update A := ⟨ub.groups⟩

end UpdateBuilderImpl

/-- `class UpdatePacker` and `class InverseUpdatePacker`: the queue and the start index. -/
structure UpdatePacker (A : Type) where
  ubq : List (UpdateBuilderImpl A)
  start : ℕ
  deriving DecidableEq, Repr

namespace UpdatePacker

/-- The constructor: one empty builder. -/
def init : UpdatePacker A := ⟨[.init], 0⟩

/-- `build`: the updates of all builders, less the last one if it is empty. -/
def build (p : UpdatePacker A) : List (Update A) :=
  let resSz := p.ubq.length
  let resSz := if (p.ubq.getD (resSz - 1) .init).empty then resSz - 1 else resSz
  (p.ubq.take resSz).map (·.build)

end UpdatePacker

/-- `class UBCursor`. -/
structure UBCursor (A : Type) where
  ubq : List (UpdateBuilderImpl A)
  start : ℕ
  i : ℕ
  deriving DecidableEq, Repr

namespace UBCursor

/-- `UBCursor c{&ubq_, start_}`. -/
def mk' (p : UpdatePacker A) : UBCursor A := ⟨p.ubq, p.start, p.start⟩

/-- The packer whose queue and start index the cursor works on. -/
def packer (c : UBCursor A) : UpdatePacker A := ⟨c.ubq, c.start⟩

/-- `operator++`. -/
def incr (c : UBCursor A) : UBCursor A :=
  if c.i + 1 ≥ c.ubq.length then { c with ubq := c.ubq ++ [.init], i := c.i + 1 }
  else { c with i := c.i + 1 }

-- The body of the loops that search for room.
def searchBody (c : UBCursor A) : Outcome String (UBCursor A) := .ret c.incr

/-- `operator*`. The index is valid in every run (`CursorOk.lt_length`). -/
def deref (c : UBCursor A) : UpdateBuilderImpl A := c.ubq.getD c.i .init

/-- `addr`: builders never move in a deque, so an address is an index. -/
def addr (c : UBCursor A) : ℕ := c.i

/-- The loop of `updateStart` from index `j` on, with `n` indexes up to `i_` left. -/
def updateStartLoop : ℕ → ℕ → UBCursor A → UBCursor A
  | 0, _, c => if c.start = c.ubq.length then { c with ubq := c.ubq ++ [.init] } else c
  | n + 1, j, c =>
    if (c.ubq.getD j .init).full then updateStartLoop n (j + 1) { c with start := j } else c

def updateStart (c : UBCursor A) : UBCursor A := updateStartLoop (c.i + 1 - c.start) c.start c

/-- `add` of an entry whose builder reports the size `geSz`. -/
def add (c : UBCursor A) (geb : GroupEntry A) (geSz : ℕ) : Outcome String (UBCursor A) := do
  let ub ← c.deref.add geb geSz
  return updateStart { c with ubq := c.ubq.set c.i ub }

end UBCursor

/-! ### The size of a builder -/

/-- The bookkeeping size of a builder is the encoded size of its entries, and it fits. -/
structure Sized (ub : UpdateBuilderImpl A) : Prop where
  sz_eq : ub.sz = entriesSize ub.groups
  le_capacity : ub.sz ≤ JPCapacity

namespace Sized

variable {ub : UpdateBuilderImpl A}

theorem init : Sized (UpdateBuilderImpl.init : UpdateBuilderImpl A) := ⟨rfl, Nat.zero_le _⟩

/-- `remaining` does not wrap. -/
theorem remaining_eq (h : Sized ub) : ub.remaining = JPCapacity - ub.sz :=
  sizeSub_eq h.le_capacity (by decide)

theorem init_remaining : (UpdateBuilderImpl.init : UpdateBuilderImpl A).remaining = JPCapacity :=
  init.remaining_eq

theorem remaining_add (h : Sized ub) : ub.remaining + ub.sz = JPCapacity := by
  rw [h.remaining_eq]
  have := h.le_capacity
  omega

theorem add (h : Sized ub) {ge : GroupEntry A} (hge : ge.size ≤ ub.remaining) :
    ub.add ge ge.size = .ret ⟨ub.groups ++ [ge], ub.sz + ge.size⟩ ∧
      Sized ⟨ub.groups ++ [ge], ub.sz + ge.size⟩ := by
  have hadd := h.remaining_add
  have hfit : ¬ub.sz + ge.size > JPCapacity := by omega
  refine ⟨?_, ?_, by simpa using hfit⟩
  · simp [UpdateBuilderImpl.add, UpdateBuilderImpl.chkSz, hfit]
  · simp only [entriesSize_append, h.sz_eq]
    simp [entriesSize]

end Sized

end Pimc
