import Mathlib.Tactic.Linarith

/-!
# Join/Prune updates (pimsm/Update.hpp, pimsm/PIMSMParams.hpp)

`params<V>` has the single specialization `params<IPv4>`, whose constants are
used by the packers through the version parameter.
-/

namespace Pimc

/-! ### `struct params<IPv4>` -/

namespace Params

def PIMHdrSize : ℕ := 4

def HelloOptionHdrSize : ℕ := 4

def PIMJPHdrSize : ℕ := PIMHdrSize + 10

/-- Bytes left for the group entries of one Join/Prune message. -/
def JPCapacity : ℕ := 1466

/-- `PIMSMv2EncGIPv4AddrSize`. -/
def GrpASize : ℕ := 8

def GrpHdrSize : ℕ := GrpASize + 2 + 2

/-- `PIMSMv2EncSrcAddrSize`. -/
def SrcASize : ℕ := 8

def MinEntrySize : ℕ := GrpHdrSize + SrcASize

/-- `PIMSMv2IPv4MaxPruneSGrptLen`. -/
def MaxPruneSGrptLen : ℕ := 180

end Params

open Params

/-! ### Updates -/

/-- `class Source`. -/
structure Source (A : Type) where
  addr : A
  wildcard : Bool
  rpt : Bool
  deriving DecidableEq, Repr

/-- `class GroupEntry`. -/
structure GroupEntry (A : Type) where
  group : A
  joins : List (Source A)
  prunes : List (Source A)
  deriving DecidableEq, Repr

/-- `class Update`. -/
structure Update (A : Type) where
  groups : List (GroupEntry A)
  deriving DecidableEq, Repr

/-- `class GroupSummary`. -/
structure GroupSummary (A : Type) where
  group : A
  joins : ℕ
  prunes : ℕ
  size : ℕ
  deriving DecidableEq, Repr

/-- `class UpdateSummary`. -/
structure UpdateSummary (A : Type) where
  n : ℕ
  groups : List (GroupSummary A)
  size : ℕ
  remaining : ℕ
  deriving DecidableEq, Repr

variable {A : Type}

/-- Subtraction of `size_t` values, which wraps. -/
def sizeSub (a b : ℕ) : ℕ := (a + 2 ^ 64 - b) % 2 ^ 64

theorem sizeSub_eq {a b : ℕ} (h : b ≤ a) (ha : a < 2 ^ 64) : sizeSub a b = a - b := by
  simp only [sizeSub]
  omega

def GroupSummary.ofEntry (ge : GroupEntry A) : GroupSummary A where
  group := ge.group
  joins := ge.joins.length
  prunes := ge.prunes.length
  size := GrpHdrSize + (ge.joins.length + ge.prunes.length) * SrcASize

def UpdateSummary.ofUpdate (n : ℕ) (update : Update A) : UpdateSummary A :=
  let groups := update.groups.map GroupSummary.ofEntry
  let size := (groups.map (·.size)).sum
  { n, groups, size, remaining := sizeSub JPCapacity size }

namespace GroupEntry

/-- Encoded size of a group entry. -/
def size (ge : GroupEntry A) : ℕ := 12 + 8 * (ge.joins.length + ge.prunes.length)

theorem ofEntry_size (ge : GroupEntry A) : (GroupSummary.ofEntry ge).size = ge.size := by
  simp only [GroupSummary.ofEntry, size, GrpHdrSize, GrpASize, SrcASize]
  omega

end GroupEntry

/-- Encoded size of a list of group entries. -/
def entriesSize (ges : List (GroupEntry A)) : ℕ := (ges.map (·.size)).sum

theorem entriesSize_append (as bs : List (GroupEntry A)) :
    entriesSize (as ++ bs) = entriesSize as + entriesSize bs := by
  simp [entriesSize]

/-- Encoded size of the group entries of an update. -/
def Update.size (u : Update A) : ℕ := entriesSize u.groups

theorem ofUpdate_size (n : ℕ) (u : Update A) : (UpdateSummary.ofUpdate n u).size = u.size := by
  simp only [UpdateSummary.ofUpdate, Update.size, entriesSize, List.map_map]
  congr 1
  exact List.map_congr_left fun ge _ => GroupEntry.ofEntry_size ge

/-! ### Entries of one group -/

/-- The entries of a group over all updates, in update order. -/
def entriesOf [DecidableEq A] (group : A) (us : List (Update A)) : List (GroupEntry A) :=
  us.flatMap fun u => u.groups.filter (·.group = group)

/-- The joins of a list of entries, one entry after the other. -/
def joinsOf (es : List (GroupEntry A)) : List (Source A) := es.flatMap (·.joins)

/-- The prunes of a list of entries, one entry after the other. -/
def prunesOf (es : List (GroupEntry A)) : List (Source A) := es.flatMap (·.prunes)

namespace Source

/-- An (S,G) source: neither flag is set. -/
def plain (s : Source A) : Bool := !s.wildcard && !s.rpt

/-- The (*,G) source: both flags are set. -/
def shared (s : Source A) : Bool := s.wildcard && s.rpt

end Source

end Pimc
