import Pimc.Config.JPConfig
import Pimc.Lib.Containers
import Pimc.Pimsm.Update

/-!
# The sanity check of the updates (pimsm/PackSanityCheck.hpp, pimsm/SanityCheckUtils.hpp)

The updates are converted back to a configuration, group by group, and the
result is compared with the original one.
-/

namespace Pimc

open Lib

variable {A : Type}

/-! ### Utilities -/

def concat [ToString A] (r : List A) (sep : String) : String := sep.intercalate (r.map toString)

/-- The elements that are missing from `b`, and those that it has in excess of `a`. -/
def compareAddrSets [LinearOrder A] (a b : UnorderedSet A) : OrdSet A × OrdSet A :=
  let missing := a.toList.foldl
    (fun missing addr => if !b.contains addr then (missing.emplace addr).1 else missing) .empty
  let extraneous := b.toList.foldl
    (fun extraneous addr => if !a.contains addr then (extraneous.emplace addr).1 else extraneous)
    .empty
  (missing, extraneous)

def keySet [DecidableEq A] {β : Type} (m : UnorderedMap A β) : UnorderedSet A :=
  m.entries.foldl (fun keys ii => keys.emplace ii.1) .empty

def vecSet [DecidableEq A] (v : List A) : UnorderedSet A :=
  v.foldl (fun items a => items.emplace a) .empty

/-- `class ErrorTracker`. -/
structure ErrorTracker where
  failed : Bool
  buf : String

namespace ErrorTracker

def init : ErrorTracker := ⟨false, ""⟩

def error (et : ErrorTracker) (text : String) : ErrorTracker :=
  ⟨true, et.buf ++ text ++ "\n\n"⟩

def append (et : ErrorTracker) (msg : String) : ErrorTracker := ⟨true, et.buf ++ msg⟩

end ErrorTracker

/-- `class GroupBase`. -/
structure GroupBase (A : Type) where
  group : A
  failed : Bool
  buf : String

namespace GroupBase

def init (group : A) : GroupBase A := ⟨group, false, ""⟩

def error [ToString A] (gb : GroupBase A) (text : String) : GroupBase A :=
  let group := gb.group
  let buf := if gb.failed then gb.buf else gb.buf ++ s!"Group {group}:\n"
  { gb with failed := true, buf := buf ++ "  " ++ text ++ "\n" }

def msg (gb : GroupBase A) : String := gb.buf ++ "\n"

end GroupBase

/-! ### `class GroupEntryConverter` -/

/-- The converter has a group of its own, which hides that of its base and keeps
the default address. -/
structure GroupEntryConverter (A : Type) [LinearOrder A] where
  base : GroupBase A
  group : A
  joins : OrdSet A
  rp : Option A
  prunes : OrdSet A

section Converter

variable [LinearOrder A] [Inhabited A] [ToString A]

namespace GroupEntryConverter

def init (group : A) : GroupEntryConverter A :=
  ⟨.init group, default, .empty, none, .empty⟩

def error (c : GroupEntryConverter A) (text : String) : GroupEntryConverter A :=
  { c with base := c.base.error text }

def addJoin (updateNo : ℕ) (c : GroupEntryConverter A) (se : Source A) :
    GroupEntryConverter A :=
  let addr := se.addr
  if se.wildcard then
    let c := if !se.rpt then c.error s!"update #{updateNo}: RP {addr}: rpt bit is not set" else c
    match c.rp with
    | some rp =>
      if rp = addr then c.error s!"update #{updateNo}: RP {addr}: duplicate insert"
      else c.error
        s!"update #{updateNo}: previously set RP {rp}: attempt to set another RP {addr}"
    | none => { c with rp := some addr }
  else
    let c := if se.rpt then c.error s!"update #{updateNo}: source {addr}: rpt bit set" else c
    let insop := c.joins.emplace addr
    let c := { c with joins := insop.1 }
    let c :=
      if !insop.2 then c.error s!"update #{updateNo}: duplicate joined source {addr}" else c
    if c.prunes.contains addr then
      c.error s!"update #{updateNo}: joined source {addr} also appears in the RPT pruned sources"
    else c

def addPrune (updateNo : ℕ) (c : GroupEntryConverter A) (se : Source A) :
    GroupEntryConverter A :=
  let addr := se.addr
  let c :=
    if se.wildcard then c.error s!"update #{updateNo}: pruned source {addr}: wildcard bit set"
    else c
  let c :=
    if !se.rpt then c.error s!"update #{updateNo}: pruned source {addr}: rpt bit not set" else c
  let insop := c.prunes.emplace addr
  let c := { c with prunes := insop.1 }
  let c :=
    if !insop.2 then c.error s!"update #{updateNo}: duplicate pruned source {addr}" else c
  if c.joins.contains addr then
    c.error s!"update #{updateNo}: pruned source {addr} also appears in the SPT joined sources"
  else c

def add (updateNo : ℕ) (c : GroupEntryConverter A) (ge : GroupEntry A) : GroupEntryConverter A :=
  let c := ge.joins.foldl (addJoin updateNo) c
  if c.rp = none ∧ ge.prunes ≠ [] then
    let size := ge.prunes.length
    c.error s!"update #{updateNo}: no RP is defined, ignoring {size} RPT pruned sources"
  else ge.prunes.foldl (addPrune updateNo) c

def convert (c : GroupEntryConverter A) : Except String (GroupConfig A) :=
  if c.base.failed then .error c.base.msg
  else .ok ⟨c.group, c.rp.map fun rp => ⟨rp, c.prunes.toList⟩, c.joins.toList⟩

end GroupEntryConverter

-- What the loops over the updates and their entries read and write.
abbrev Converters (A : Type) [LinearOrder A] : Type := UnorderedMap A (GroupEntryConverter A) × ℕ

def addEntry (s : Converters A) (ge : GroupEntry A) : Converters A :=
  let maddr := ge.group
  let ii := s.1.tryEmplace maddr (.init maddr)
  (ii.1.modify maddr fun c => c.add s.2 ge, s.2 + 1)

def convertStep (s : UnorderedMap A (GroupConfig A) × List String)
    (ii : A × GroupEntryConverter A) : UnorderedMap A (GroupConfig A) × List String :=
  match ii.2.convert with
  | .ok r => ((s.1.tryEmplace ii.1 r).1, s.2)
  | .error e => (s.1, s.2 ++ [e])

def convertUpdatesToJPConfig (updates : List (Update A)) :
    Except (List String) (UnorderedMap A (GroupConfig A)) :=
  let s := updates.foldl (fun s update => update.groups.foldl addEntry s)
    ((.empty, 1) : Converters A)
  let r := s.1.entries.foldl convertStep (.empty, [])
  if r.2 ≠ [] then .error r.2 else .ok r.1

end Converter

/-! ### Comparison -/

section Compare

variable [LinearOrder A] [ToString A]

/-- `GroupConfigComparator::compare`, on a comparator made for `group`. -/
def GroupConfigComparator.compare (group : A) (orig rslt : GroupConfig A) : Except String Unit :=
  let gb : GroupBase A := .init group
  let js := compareAddrSets (vecSet orig.spt) (vecSet rslt.spt)
  let gb :=
    if !js.1.toList.isEmpty then
      gb.error ("missing SPT joined sources:\n    " ++ concat js.1.toList "\n    ")
    else gb
  let gb :=
    if !js.2.toList.isEmpty then
      gb.error ("extraneous SPT joined sources:\n    " ++ concat js.2.toList "\n    ")
    else gb
  let gb :=
    match orig.rpt, rslt.rpt with
    | some ⟨rp, prunes⟩, none =>
      let size := prunes.length
      gb.error <| s!"the original has RPT with RP {rp} and {size} pruned sources, " ++
        "while the result has no RPT"
    | none, some ⟨rp, prunes⟩ =>
      let size := prunes.length
      gb.error <| "the original has no RPT, " ++
        s!"while the result has RPT with RP {rp} and {size} pruned sources"
    | some ⟨origRp, origPrunes⟩, some ⟨rsltRp, rsltPrunes⟩ =>
      let gb :=
        if origRp ≠ rsltRp then gb.error s!"original RP {origRp} != result RP {rsltRp}" else gb
      let ps := compareAddrSets (vecSet origPrunes) (vecSet rsltPrunes)
      let gb :=
        if !ps.1.toList.isEmpty then
          gb.error ("missing RPT pruned sources:\n    " ++ concat ps.1.toList "\n    ")
        else gb
      if !ps.2.toList.isEmpty then
        gb.error ("extraneous RPT pruned sources:\n    " ++ concat ps.2.toList "\n    ")
      else gb
    | none, none => gb
  if gb.failed then .error gb.msg else .ok ()

def compareStep (rslt : UnorderedMap A (GroupConfig A)) (et : ErrorTracker)
    (ii : A × GroupConfig A) : ErrorTracker :=
  match rslt.find? ii.1 with
  | none => et
  | some ri =>
    match GroupConfigComparator.compare ii.1 ii.2 ri with
    | .ok _ => et
    | .error e => et.append e

def compareJPConfigs (orig rslt : UnorderedMap A (GroupConfig A)) : Except String Unit :=
  let et : ErrorTracker := .init
  let gs := compareAddrSets (keySet orig) (keySet rslt)
  let et :=
    if !gs.1.toList.isEmpty then
      et.error ("missing groups:\n  " ++ concat gs.1.toList "\n  ")
    else et
  let et :=
    if !gs.2.toList.isEmpty then
      et.error ("extraneous groups:\n  " ++ concat gs.2.toList "\n  ")
    else et
  let et := orig.entries.foldl (compareStep rslt) et
  if et.failed then .error et.buf else .ok ()

def verifyUpdates [Inhabited A] (jpCfg : JPConfig A) (updates : List (Update A)) :
    Except String Unit :=
  match convertUpdatesToJPConfig updates with
  | .error errors => .error (String.join errors)
  | .ok r =>
    let origCfg := jpCfg.groups.foldl (fun m ge => (m.tryEmplace ge.group ge).1) .empty
    compareJPConfigs origCfg r

end Compare

end Pimc
