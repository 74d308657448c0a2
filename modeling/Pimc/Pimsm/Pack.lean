import Pimc.Config.JPConfig
import Pimc.Pimsm.UBCursor

/-!
# Packing a configuration into updates (pimsm/Pack.hpp, pimsm/InversePack.hpp)

The loops of the packers may run on: every call takes the fuel that its loops
are allowed. A pointer to an update builder is its index in the queue.
-/

namespace Pimc

open Lib Params

variable {A : Type}

/-! ### Group entry builders -/

-- `class GroupEntryBuilderImpl` and `class InverseGroupEntryBuilderImpl`, whose
-- entries have no joins.
namespace GroupEntryBuilderImpl

def ofGroup (group : A) : GroupEntry A := ⟨group, [], []⟩

def join (geb : GroupEntry A) (src : A) (wildcard rpt : Bool) : GroupEntry A :=
  { geb with joins := geb.joins ++ [⟨src, wildcard, rpt⟩] }

def prune (geb : GroupEntry A) (src : A) (wildcard rpt : Bool) : GroupEntry A :=
  { geb with prunes := geb.prunes ++ [⟨src, wildcard, rpt⟩] }

def size (geb : GroupEntry A) : ℕ :=
  GrpHdrSize + (geb.joins.length + geb.prunes.length) * SrcASize

theorem size_eq (geb : GroupEntry A) : size geb = geb.size := GroupEntry.ofEntry_size geb

theorem foldl_join (wildcard rpt : Bool) (srcs : List A) (geb : GroupEntry A) :
    srcs.foldl (fun geb src => join geb src wildcard rpt) geb =
      { geb with joins := geb.joins ++ srcs.map fun a => ⟨a, wildcard, rpt⟩ } := by
  induction srcs generalizing geb with
  | nil => simp
  | cons src srcs ih =>
    rw [List.foldl_cons, ih]
    simp [join]

theorem foldl_prune (wildcard rpt : Bool) (srcs : List A) (geb : GroupEntry A) :
    srcs.foldl (fun geb src => prune geb src wildcard rpt) geb =
      { geb with prunes := geb.prunes ++ srcs.map fun a => ⟨a, wildcard, rpt⟩ } := by
  induction srcs generalizing geb with
  | nil => simp
  | cons src srcs ih =>
    rw [List.foldl_cons, ih]
    simp [prune]

end GroupEntryBuilderImpl

open GroupEntryBuilderImpl

def maxSources (rem : ℕ) : ℕ :=
  if rem ≤ GrpHdrSize then 0 else (rem - GrpHdrSize) / SrcASize

theorem maxSources_eq (rem : ℕ) : maxSources rem = (rem - 12) / 8 := by
  show (if rem ≤ 12 then 0 else (rem - 12) / 8) = (rem - 12) / 8
  split_ifs with h
  · omega
  · rfl

/-! ### `class UpdatePacker` -/

namespace UpdatePacker

def rptSz (rpt : RPT A) : ℕ := GrpHdrSize + SrcASize * (rpt.prunes.length + 1)

def rptGuard (rpt : RPT A) (c : UBCursor A) : Bool := c.deref.remaining < rptSz rpt

def findRptUb (fuel : ℕ) (p : UpdatePacker A) (ge : GroupConfig A) :
    Outcome String (UpdatePacker A × Option ℕ) :=
  match ge.rpt with
  | none => return (p, none)
  | some rpt => do
    let c ← whileLoop (rptGuard rpt) UBCursor.searchBody fuel (UBCursor.mk' p)
    return (c.packer, some c.addr)

-- The loop over the sources `spt[srci]` up to `spt[srci + cnt - 1]`.
def joinSlice (geb : GroupEntry A) (spt : List A) (srci cnt : ℕ) : GroupEntry A :=
  ((spt.drop srci).take cnt).foldl (fun geb src => join geb src false false) geb

-- The RP and the RPT-pruned sources of a group entry.
def joinRpt (geb : GroupEntry A) (rpt : RPT A) : GroupEntry A :=
  rpt.prunes.foldl (fun geb src => prune geb src false true) (join geb rpt.rp true true)

/-- What the loop over the SPT sources reads and writes. -/
structure SptLoop (A : Type) where
  c : UBCursor A
  srci : ℕ
  rptUb : Option ℕ
  deriving Repr, DecidableEq

def sptGuard (ge : GroupConfig A) (s : SptLoop A) : Bool := s.srci < ge.spt.length

def sptBody (ge : GroupConfig A) (s : SptLoop A) : Outcome String (SptLoop A) :=
  let c := s.c
  match ge.rpt, s.rptUb == some c.addr with
  | some rpt, true => do
    let cnt := min (maxSources (sizeSub c.deref.remaining (SrcASize * (rpt.prunes.length + 1))))
      (ge.spt.length - s.srci)
    let geb := joinRpt (joinSlice (ofGroup ge.group) ge.spt s.srci cnt) rpt
    let c ← c.add geb (size geb)
    return { c := c.incr, srci := s.srci + cnt, rptUb := none }
  | _, _ => do
    let cnt := min (maxSources c.deref.remaining) (ge.spt.length - s.srci)
    if cnt > 0 then
      let geb := joinSlice (ofGroup ge.group) ge.spt s.srci cnt
      let c ← c.add geb (size geb)
      return { s with c := c.incr, srci := s.srci + cnt }
    else return { s with c := c.incr }

def fitGroup (fuel : ℕ) (p : UpdatePacker A) (ge : GroupConfig A) :
    Outcome String (UpdatePacker A) := do
  let (p, rptUb) ← findRptUb fuel p ge
  let s ← whileLoop (sptGuard ge) (sptBody ge) fuel ⟨UBCursor.mk' p, 0, rptUb⟩
  let p := s.c.packer
  match ge.rpt, s.rptUb with
  | some rpt, some k =>
    let geb := joinRpt (ofGroup ge.group) rpt
    let ub ← (p.ubq.getD k .init).add geb (size geb)
    return { p with ubq := p.ubq.set k ub }
  | _, _ => return p

end UpdatePacker

def pack (fuel : ℕ) (jpCfg : JPConfig A) : Outcome String (List (Update A)) := do
  let up ← jpCfg.groups.foldlM (UpdatePacker.fitGroup fuel) UpdatePacker.init
  return up.build

/-! ### `class InverseUpdatePacker` -/

namespace InverseUpdatePacker

-- The loop over the sources `spt[srci]` up to `spt[srci + cnt - 1]`.
def pruneSlice (geb : GroupEntry A) (spt : List A) (srci cnt : ℕ) : GroupEntry A :=
  ((spt.drop srci).take cnt).foldl (fun geb src => prune geb src false false) geb

/-- What the loop over the SPT sources reads and writes. -/
structure SptLoop (A : Type) where
  c : UBCursor A
  srci : ℕ
  pruneRP : ℕ
  deriving Repr, DecidableEq

def sptGuard (ge : GroupConfig A) (s : SptLoop A) : Bool := s.srci < ge.spt.length

def sptBody (ge : GroupConfig A) (s : SptLoop A) : Outcome String (SptLoop A) :=
  let cnt := min (maxSources s.c.deref.remaining) (s.pruneRP + ge.spt.length - s.srci)
  if cnt > 0 then
    match ge.rpt, s.pruneRP == 1 with
    | some rpt, true =>
      let geb := prune (ofGroup ge.group) rpt.rp true true
      -- `continue`: the entry builder goes out of scope with the RP in it
      if cnt - 1 = 0 then return { s with pruneRP := 0 }
      else do
        let geb := pruneSlice geb ge.spt s.srci (cnt - 1)
        let c ← s.c.add geb (size geb)
        return { c := c.incr, srci := s.srci + (cnt - 1), pruneRP := 0 }
    | _, _ => do
      let geb := pruneSlice (ofGroup ge.group) ge.spt s.srci cnt
      let c ← s.c.add geb (size geb)
      return { s with c := c.incr, srci := s.srci + cnt }
  else return { s with c := s.c.incr }

def rpGuard (c : UBCursor A) : Bool := min (maxSources c.deref.remaining) 1 == 0

def fitGroup (fuel : ℕ) (p : UpdatePacker A) (ge : GroupConfig A) :
    Outcome String (UpdatePacker A) := do
  let pruneRP := if ge.rpt.isSome then 1 else 0
  let s ← whileLoop (sptGuard ge) (sptBody ge) fuel ⟨UBCursor.mk' p, 0, pruneRP⟩
  match ge.rpt, s.pruneRP == 1 with
  | some rpt, true => do
    let geb := prune (ofGroup ge.group) rpt.rp true true
    let c ← whileLoop rpGuard UBCursor.searchBody fuel s.c
    let c ← c.add geb (size geb)
    return c.packer
  | _, _ => return s.c.packer

end InverseUpdatePacker

def inversePack (fuel : ℕ) (jpCfg : JPConfig A) : Outcome String (List (Update A)) := do
  let up ← jpCfg.groups.foldlM (InverseUpdatePacker.fitGroup fuel) UpdatePacker.init
  return up.build

end Pimc
