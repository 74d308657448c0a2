import Pimc.Config.JPConfig
import Pimc.Net.IPv4Parser
import Pimc.Pimsm.Update
import Pimc.Yaml.Structured

/-!
# The multicast section (config/ConfigUtils.hpp, MulticastConfigLoader.hpp, JPConfigLoader.hpp)

The group config builder is the class template `GroupConfigBuilderBase` together
with its only instance, `JPGroupConfigBuilder`. Both builders append to one
vector of errors, which is the log of `Logged`.
-/

namespace Pimc

open Lib Logged Yaml

/-! ### `ConfigUtils.hpp` -/

inductive JPSourceType where
  | RP
  | RptPruned
  | SptJoined
  deriving DecidableEq, Repr

instance : ToString JPSourceType where
  toString
    | .RP => "RP"
    | .RptPruned => "RPT-pruned source"
    | .SptJoined => "SPT-joined source"

inductive UCAddrType where
  | RP
  | Source
  | Neighbor
  deriving DecidableEq, Repr

instance : ToString UCAddrType where
  toString
    | .RP => "RP"
    | .Source => "source"
    | .Neighbor => "neighbor"

structure JPSourceInfo where
  type : JPSourceType
  line : ℤ

def ucAddr (s : String) (typ : UCAddrType) : Except String IPv4Address :=
  match parseIPv4Address s with
  | none => .error s!"invalid IPv4 {typ} address '{s}'"
  | some sa =>
    if sa.isDefault || sa.isLocalBroadcast then .error s!"invalid IPv4 {typ} address {sa}"
    else if sa.isLoopback then
      .error s!"invalid IPv4 {typ} address {sa}: address may not be loopback"
    else if sa.isMcast then
      .error s!"invalid IPv4 {typ} address {sa}: address may not be multicast"
    else .ok sa

def grpAddr (g : String) : Except String IPv4Address :=
  match parseIPv4Address g with
  | none => .error s!"invalid multicast IPv4 group address '{g}'"
  | some ga =>
    if !ga.isMcast then .error s!"invalid multicast IPv4 group address {ga}: not multicast"
    else .ok ga

/-! ### The group config builder -/

structure JPGroupConfigBuilder where
  group : IPv4Address
  line : ℤ
  /-- `GroupConfigBuilderBase::rptPrunedSources_`. -/
  rptPrunedCount : ℕ
  sources : UnorderedMap IPv4Address JPSourceInfo
  rp : Option IPv4Address
  rptPrunedSources : OrdSet IPv4Address
  sgJoinedSources : OrdSet IPv4Address

namespace JPGroupConfigBuilder

/-- The constructor. -/
def mk' (group : IPv4Address) (line : ℤ) : JPGroupConfigBuilder where
  group := group
  line := line
  rptPrunedCount := 0
  sources := UnorderedMap.empty
  rp := none
  rptPrunedSources := OrdSet.empty
  sgJoinedSources := OrdSet.empty

abbrev Load := Logged ErrorContext JPGroupConfigBuilder

def acceptRP (rp : IPv4Address) : Load Unit := adjust fun b => { b with rp := some rp }

def acceptPruneSGrpt (sa : IPv4Address) : Load Unit :=
  adjust fun b => { b with rptPrunedSources := (b.rptPrunedSources.emplace sa).1 }

def acceptJoinSG (sa : IPv4Address) : Load Unit :=
  adjust fun b => { b with sgJoinedSources := (b.sgJoinedSources.emplace sa).1 }

def build (b : JPGroupConfigBuilder) (group : IPv4Address) : GroupConfig IPv4Address where
  group := group
  rpt := b.rp.map fun rp => ⟨rp, b.rptPrunedSources.toList⟩
  spt := b.sgJoinedSources.toList

/-- Whether the source is new; `k` goes on with it if so. -/
def chkSrc (nctx : ScalarContext) (src : IPv4Address) (jpst : JPSourceType) (k : Load Unit) :
    Load Unit := do
  let b ← current
  let ii := b.sources.tryEmplace src ⟨jpst, nctx.line⟩
  if ii.2 then
    store { b with sources := ii.1 }
    k
  else
    let eJpsi := (b.sources.find? src).getD ⟨jpst, nctx.line⟩
    report (nctx.error s!"duplicate {src} {jpst}: declared as {eJpsi.type} on line {eJpsi.line}")

/-- The address of a scalar; `k` goes on with it if there is one. -/
def withUcAddr (rSrc : Except ErrorContext ScalarContext) (typ : UCAddrType)
    (k : ScalarContext → IPv4Address → Load Unit) : Load Unit := do
  let oSrc ← chk rSrc
  ifSome oSrc fun src => do
    let oAddr ← chk ((ucAddr src.value typ).mapError src.error)
    ifSome oAddr (k src)

/-- The rest of the loop body for a new source of the `Prune` entry. -/
def acceptPrune (rSrc : ScalarContext) (src : IPv4Address) : Load Unit := do
  let b ← current
  if b.rptPrunedCount ≥ Params.MaxPruneSGrptLen then
    report (rSrc.error s!"unable to add source {src} to the RPT-prune list for group {b.group} as it exceeds the maximum number of entries {b.rptPrunedCount}")
  else
    store { b with rptPrunedCount := b.rptPrunedCount + 1 }
    acceptPruneSGrpt src

/-- The body of the loop over the `Prune` entry. -/
def loadPrune (vCtx : ValueContext) : Load Unit :=
  withUcAddr (vCtx.getScalar "IPv4 source address") .Source fun rSrc src =>
    chkSrc rSrc src .RptPruned (acceptPrune rSrc src)

/-- The body of the loop over the `Join` entry. -/
def loadJoin (vCtx : ValueContext) : Load Unit :=
  withUcAddr (vCtx.getScalar "IPv4 source address") .Source fun rSrc src =>
    chkSrc rSrc src .SptJoined (acceptJoinSG src)

def loadRP (rRP : Except ErrorContext ScalarContext) : Load Unit :=
  withUcAddr rRP .RP fun rRP rRPA => chkSrc rRP rRPA .RP (acceptRP rRPA)

def loadPruneList (list : ValueContext) : Load Unit := do
  let oList ← chk (list.getSequence "RPT-pruned sources")
  ifSome oList fun seq => seq.list.forM loadPrune

def chkExtraneous (mCtx : MappingContext) : Load Unit := reportAll mCtx.extraneous

/-- The handler for the `Join*` entry. -/
def loadRPTConfig (rptCtx : ValueContext) : Load Unit := do
  let oRptCfg ← chk (rptCtx.getMapping "IPv4 RPT config")
  ifSome oRptCfg fun rptCfg => do
    let rRP := rptCfg.required "RP"
    loadRP (rRP.1.bind fun vctx => vctx.getScalar "IPv4 RP address")
    let oPrune := rRP.2.optional "Prune"
    ifSome oPrune.1 loadPruneList
    chkExtraneous oPrune.2

/-- The handler for the `Join` entry. -/
def loadSPTConfig (sptCtx : ValueContext) : Load Unit := do
  let oSptCfg ← chk (sptCtx.getSequence "IPv4 SPT config")
  ifSome oSptCfg fun seq => seq.list.forM loadJoin

def loadGroupConfig (grpCtx : ValueContext) : Load Unit := do
  let b ← current
  let oGrpCfg ← chk (grpCtx.getMapping s!"IPv4 group {b.group} config")
  ifSome oGrpCfg fun grpCfg => do
    let oRptCfg := grpCfg.optional "Join*"
    ifSome oRptCfg.1 loadRPTConfig
    let oSptCfg := oRptCfg.2.optional "Join"
    ifSome oSptCfg.1 loadSPTConfig
    chkExtraneous oSptCfg.2
    reportIf (oRptCfg.1.isNone && oSptCfg.1.isNone)
      (grpCtx.error s!"IPv4 group {b.group} config may not be empty")

end JPGroupConfigBuilder

/-! ### The multicast config builder -/

structure MulticastConfigBuilder where
  groups : List IPv4Address
  groupBldMap : UnorderedMap IPv4Address JPGroupConfigBuilder

namespace MulticastConfigBuilder

def init : MulticastConfigBuilder := ⟨[], UnorderedMap.empty⟩

abbrev Load := Logged ErrorContext MulticastConfigBuilder

/-- A call on the builder of `ga` in the map, which `bld` is. -/
def onBuilder (ga : IPv4Address) (bld : JPGroupConfigBuilder)
    (m : JPGroupConfigBuilder.Load Unit) : Load Unit :=
  zoom (fun _ => bld)
    (fun b bld' => { b with groupBldMap := b.groupBldMap.modify ga fun _ => bld' }) m

/-- The body of the loop over the groups. -/
def loadGroup (ii : ValueContext × ValueContext) : Load Unit := do
  let oGrp ← chk (ii.1.getScalar "")
  ifSome oGrp fun grp => do
    let oGrpA ← chk ((grpAddr grp.value).mapError grp.error)
    ifSome oGrpA fun ga => do
      let b ← current
      let bld := JPGroupConfigBuilder.mk' ga grp.line
      let bldi := b.groupBldMap.tryEmplace ga bld
      if bldi.2 then
        store { groups := b.groups ++ [ga], groupBldMap := bldi.1 }
        onBuilder ga bld (JPGroupConfigBuilder.loadGroupConfig ii.2)
      else
        let eBld := (b.groupBldMap.find? ga).getD bld
        report (grp.error s!"duplicate group {ga}, previously declared on line {eBld.line}")

def loadMulticastConfig (jpCfgCtx : ValueContext) : Load Unit := do
  let oJPCfg ← chk (jpCfgCtx.getMapping "IPv4 multicast config")
  ifSome oJPCfg fun jpCfg =>
    if jpCfg.size > 0 then jpCfg.items.forM loadGroup
    else report (jpCfgCtx.error "IPv4 J/P config contains no groups")

def buildGroup (b : MulticastConfigBuilder) (ga : IPv4Address) :
    Except String (GroupConfig IPv4Address) :=
  match b.groupBldMap.find? ga with
  | some bld => .ok (bld.build ga)
  | none => .error "indexed group not in map"

def build (b : MulticastConfigBuilder) : Except String (JPConfig IPv4Address) :=
  (b.groups.mapM b.buildGroup).map JPConfig.mk

end MulticastConfigBuilder

/-- The outer error is an exception, the inner one the errors that are returned. -/
def loadJPConfig (jpCfgCtx : ValueContext) :
    Except String (Except (List ErrorContext) (JPConfig IPv4Address)) :=
  let r := MulticastConfigBuilder.loadMulticastConfig jpCfgCtx MulticastConfigBuilder.init
  if r.1 ≠ [] then .ok (.error r.1)
  else r.2.2.build.map .ok

end Pimc
