import Pimc.Config.LoaderOrder
import Pimc.Config.PIMCConfigLoader
import Pimc.Config.SectionLoaders
import Pimc.Pimsm.InverseVerified

/-!
# Loading a configuration (config/PIMCConfigLoader.hpp)

A document is rejected with errors, or stops the program, or is loaded. It stops
the program when the updates of its groups do not pass their checks, or when the
file system throws on its logging directory.
-/

namespace Pimc

open Lib Logged Yaml

/-- `PIMCConfig` with all its fields. -/
structure LoadedConfig extends PIMCConfig IPv4Address where
  loggingConfig : LoggingConfig
  intfIndex : BitVec 32
  intfName : String
  jpConfig : JPConfig IPv4Address

inductive LoadFault where
  | logicError (what : String)
  | filesystemError (what : String)
  | uninitialized
  deriving DecidableEq, Repr

def raised {α : Type} (fault : String → LoadFault) : Except String α → Outcome LoadFault α
  | .ok a => .ret a
  | .error e => .throws (fault e)

@[simp] theorem raised_ok {α : Type} (fault : String → LoadFault) (a : α) :
    raised fault (.ok a) = .ret a := rfl

def initialized {α : Type} : Option α → Outcome LoadFault α
  | some a => .ret a
  | none => .throws .uninitialized

structure PIMCConfigLoader where
  loggingConfig : Option LoggingConfig
  pimsmConfig : Option PIMSMIntfConfig
  jpConfig : Option (JPConfig IPv4Address)

namespace PIMCConfigLoader

def init : PIMCConfigLoader := ⟨none, none, none⟩

abbrev SectionResult (α : Type) := Except (List ErrorContext) α

/-- `chkErrors` -/
def errorsOf {α : Type} : SectionResult α → List ErrorContext
  | .ok _ => []
  | .error es => es

/-- A section that is required. -/
def loadSection {α : Type} (r : Except ErrorContext ValueContext)
    (load : ValueContext → Outcome LoadFault (SectionResult α)) :
    Outcome LoadFault (SectionResult α) :=
  match r with
  | .error e => .ret (.error [e])
  | .ok c => load c

/-- The errors in the order in which they are reported, and the loader. -/
def loadPIMCConfig (host : LoaderHost) (vCtx : ValueContext) :
    Outcome LoadFault (List ErrorContext × PIMCConfigLoader) :=
  match vCtx.getMapping "" with
  | .error e => .ret ([e], .init)
  | .ok cfg => do
    let oLogging := cfg.optional "logging"
    let rLoggingCfg ← raised .filesystemError (loadLoggingConfig host oLogging.1)
    let rPim := oLogging.2.required "pim"
    let rPIMSMCfg ← loadSection rPim.1 fun v => initialized (loadPIMSMConfig host v)
    let rMulticast := rPim.2.required "multicast"
    let rJPCfg ← loadSection rMulticast.1 fun v => raised .logicError (loadJPConfig v)
    return (errorsOf rLoggingCfg ++ errorsOf rPIMSMCfg ++ errorsOf rJPCfg ++
      rMulticast.2.extraneous, ⟨rLoggingCfg.toOption, rPIMSMCfg.toOption, rJPCfg.toOption⟩)

def build (fuel : ℕ) (b : PIMCConfigLoader) : Outcome LoadFault LoadedConfig :=
  match b.pimsmConfig, b.jpConfig with
  | some pimsmConfig, some jpConfig => do
    let updates ← (pack fuel jpConfig).mapError .logicError
    let _ ← raised .logicError (verifyUpdates jpConfig updates)
    let inverseUpdates ← (inversePack fuel jpConfig).mapError .logicError
    let _ ← raised .logicError (verifyInverseUpdates jpConfig inverseUpdates)
    let loggingConfig ← initialized b.loggingConfig
    return {
      pimsmConfig := pimsmConfig.toPIMSMConfig, updates := updates,
      inverseUpdates := inverseUpdates, loggingConfig := loggingConfig,
      intfIndex := pimsmConfig.intfIndex, intfName := pimsmConfig.intfName, jpConfig := jpConfig }
  | _, _ => .throws (.logicError "PIM SM config or J/P config is not loaded")

end PIMCConfigLoader

def loadPIMCConfig (host : LoaderHost) (fuel : ℕ) (cfgCtx : ValueContext) :
    Outcome LoadFault (Except (List ErrorContext) LoadedConfig) := do
  let r ← PIMCConfigLoader.loadPIMCConfig host cfgCtx
  if r.1 ≠ [] then return .error r.1
  let cfg ← r.2.build fuel
  return .ok cfg

/-! ### What a document says -/

structure Settings where
  logging : LoggingConfigLoader
  neighbor : IPv4Address
  intf : IntfInfo
  intfAddr : IPv4Address
  groups : List (GroupConfig IPv4Address)

def SaysLogging (host : LoaderHost) (entries : List (Node × Node)) (b : LoggingConfigLoader) :
    Prop :=
  ((∀ n, ¬Entry entries "logging" n) ∧ b = .init) ∨
    ∃ n, Entry entries "logging" n ∧ LoggingConfigLoader.Describes host n b

/-- The document `n` has the settings `st`, its groups in document order. -/
def DescribesSettings (host : LoaderHost) (n : Node) (st : Settings) : Prop :=
  ∃ line entries, n = .map line entries ∧ Fields entries ["logging", "pim", "multicast"] ∧
    SaysLogging host entries st.logging ∧
    (∃ m, Entry entries "pim" m ∧
      PIMSMConfigLoader.Describes host m st.neighbor st.intf st.intfAddr) ∧
    ∃ m, Entry entries "multicast" m ∧ Documented m st.groups

/-- The file system throws on the directory of the logging section of the document `n`. -/
def DirThrows (host : LoaderHost) (n : Node) (what : String) : Prop :=
  ∃ line entries m, n = .map line entries ∧ Node.lookup entries "logging" = some m ∧
    LoggingConfigLoader.DirThrows host m what

namespace PIMCConfigLoader

/-- A loader that ends with a value or with errors, and accepts the nodes of `P`. -/
structure Accepts {α : Type} (load : ValueContext → Outcome LoadFault (SectionResult α))
    (P : Node → α → Prop) : Prop where
  accepted : ∀ c a, load c = .ret (.ok a) ↔ P c.node a
  settled : ∀ c, (∃ a, load c = .ret (.ok a)) ∨ ∃ es, es ≠ [] ∧ load c = .ret (.error es)

theorem accepts_pim (host : LoaderHost) : Accepts (fun v => initialized (loadPIMSMConfig host v))
    fun n cfg => ∃ nei info addr, PIMSMConfigLoader.Describes host n nei info addr ∧
      cfg = PIMSMConfigLoader.configOf host nei info addr where
  accepted := by
    intro c cfg
    rw [← loadPIMSMConfig_ok]
    cases loadPIMSMConfig host c <;> simp [initialized]
  settled := by
    intro c
    rcases loadPIMSMConfig_cases host c with ⟨cfg, hcfg⟩ | ⟨es, hne, hes⟩
    · left
      exact ⟨cfg, by rw [hcfg]; rfl⟩
    · right
      exact ⟨es, hne, by rw [hes]; rfl⟩

theorem loadJPConfig_cases (c : ValueContext) :
    (∃ cfg, loadJPConfig c = .ok (.ok cfg)) ∨
      ∃ es, es ≠ [] ∧ loadJPConfig c = .ok (.error es) := by
  by_cases herrors : (MulticastConfigBuilder.loadMulticastConfig c .init).1 = []
  · left
    obtain ⟨b, hclean⟩ := errors_eq_nil_iff.mp herrors
    obtain ⟨m, _, _, hgroups⟩ := clean_loadMulticastConfig.mp hclean
    obtain ⟨_, gs, _, _, _, hholds⟩ :=
      MulticastConfigBuilder.loadGroups_sound MulticastConfigBuilder.holds_init List.nodup_nil
        hgroups
    rw [List.nil_append] at hholds
    exact ⟨_, (loadJPConfig_returns c _).mpr
      ⟨b, hclean, MulticastConfigBuilder.build_of_holds hholds⟩⟩
  · right
    exact ⟨_, herrors, if_pos herrors⟩

theorem accepts_multicast : Accepts (fun v => raised .logicError (loadJPConfig v))
    fun n cfg => ∃ ds, Documented n ds ∧ List.Forall₂ LoadedAs ds cfg.groups where
  accepted := by
    intro c cfg
    rw [← loadJPConfig_eq_iff]
    cases loadJPConfig c <;> simp [raised]
  settled := by
    intro c
    rcases loadJPConfig_cases c with ⟨cfg, hcfg⟩ | ⟨es, hne, hes⟩
    · left
      exact ⟨cfg, by rw [hcfg]; rfl⟩
    · right
      exact ⟨es, hne, by rw [hes]; rfl⟩

/-- A section that is missing is an error. -/
theorem Accepts.required {α : Type} {load : ValueContext → Outcome LoadFault (SectionResult α)}
    {P : Node → α → Prop} (h : Accepts load P) (m : MappingContext) (field : String) :
    ∃ r, loadSection (m.required field).1 load = .ret r ∧
      (errorsOf r = [] → ∃ n a, Node.lookup m.entries field = some n ∧ P n a ∧ r = .ok a) := by
  cases hfield : (m.required field).1 with
  | error e => exact ⟨.error [e], rfl, nofun⟩
  | ok c =>
    obtain ⟨n, hlookup, rfl⟩ := MappingContext.required_ok.mp hfield
    rcases h.settled (.named n m.ctx (m.describe field)) with ⟨a, ha⟩ | ⟨es, hne, hes⟩
    · exact ⟨.ok a, ha, fun _ => ⟨n, a, hlookup, (h.accepted _ a).mp ha, rfl⟩⟩
    · exact ⟨.error es, hes, fun hnil => absurd hnil hne⟩

theorem Accepts.required_of_entry {α : Type}
    {load : ValueContext → Outcome LoadFault (SectionResult α)} {P : Node → α → Prop}
    (h : Accepts load P) {m : MappingContext} {field : String} {n : Node}
    (hlookup : Node.lookup m.entries field = some n) {a : α} (ha : P n a) :
    loadSection (m.required field).1 load = .ret (.ok a) := by
  rw [MappingContext.required_ok.mpr ⟨n, hlookup, rfl⟩]
  exact (h.accepted _ a).mpr ha

theorem loadLoggingConfig_errors (host : LoaderHost) (ovCtx : Option ValueContext) :
    loadLoggingConfig host ovCtx ≠ .ok (.error []) := by
  intro h
  unfold loadLoggingConfig at h
  cases hload : LoggingConfigLoader.loadLoggingConfig host ovCtx with
  | error what =>
    rw [hload] at h
    cases h
  | ok load =>
    rw [hload] at h
    injection h with h
    dsimp only at h
    split_ifs at h with herrors
    injection h with h
    exact herrors h

theorem loadLoggingConfig_optional {host : LoaderHost} {m : MappingContext}
    {allowed : List String} (hfields : Fields m.entries allowed) {cfg : LoggingConfig} :
    loadLoggingConfig host (m.optional "logging").1 = .ok (.ok cfg) ↔
      ∃ b, SaysLogging host m.entries b ∧ cfg = b.build host := by
  rw [loadLoggingConfig_ok]
  exact exists_congr fun b => and_congr_left' (optional_entry hfields
    (Q := fun n => LoggingConfigLoader.Describes host n b))

theorem loadPIMCConfig_throws {host : LoaderHost} {c : ValueContext} {what : String}
    (h : DirThrows host c.node what) :
    loadPIMCConfig host c = .throws (.filesystemError what) := by
  obtain ⟨line, entries, n, hnode, hlookup, hthrows⟩ := h
  have hlog : loadLoggingConfig host (MappingContext.optional
      ⟨"", c.node, entries, c.ctx, .empty⟩ "logging").1 = .error what := by
    have hfield := (@MappingContext.optional_iff ⟨"", c.node, entries, c.ctx, .empty⟩ "logging"
      False fun n => LoggingConfigLoader.DirThrows host n what).mpr (Or.inr ⟨n, hlookup, hthrows⟩)
    apply loadLoggingConfig_throws.mpr
    simpa only [and_false, false_or] using hfield
  unfold loadPIMCConfig
  rw [getMapping_ok.mpr ⟨line, entries, hnode, rfl⟩]
  simp only [hlog]
  rfl

/-- The loader behind a document with the settings `st` and the groups `jp`. -/
def loaderOf (host : LoaderHost) (st : Settings) (jp : JPConfig IPv4Address) : PIMCConfigLoader :=
  ⟨some (st.logging.build host),
    some (PIMSMConfigLoader.configOf host st.neighbor st.intf st.intfAddr), some jp⟩

theorem load_described {host : LoaderHost} {c : ValueContext} {st : Settings}
    {jp : JPConfig IPv4Address} (h : DescribesSettings host c.node st)
    (hgroups : List.Forall₂ LoadedAs st.groups jp.groups) :
    loadPIMCConfig host c = .ret ([], loaderOf host st jp) := by
  obtain ⟨line, entries, hnode, hfields, hlogging, ⟨n, hn, hpim⟩, n', hn', hdoc⟩ := h
  have hlog := (loadLoggingConfig_optional (m := ⟨"", c.node, entries, c.ctx, .empty⟩)
    hfields).mpr ⟨st.logging, hlogging, rfl⟩
  unfold loadPIMCConfig
  rw [getMapping_ok.mpr ⟨line, entries, hnode, rfl⟩]
  simp only [hlog, raised_ok, Outcome.ret_bind]
  rw [(accepts_pim host).required_of_entry (entry_lookup hfields hn) ⟨_, _, _, hpim, rfl⟩,
    Outcome.ret_bind, accepts_multicast.required_of_entry (entry_lookup hfields hn')
      ⟨_, hdoc, hgroups⟩, Outcome.ret_bind]
  have hextra : (((MappingContext.optional ⟨"", c.node, entries, c.ctx, .empty⟩
      "logging").2.required "pim").2.required "multicast").2.extraneous = [] :=
    (extraneous_known ["logging", "pim", "multicast"]).mpr hfields
  rw [hextra]
  rfl

/-- A document is described, or the file system throws on it, or there are errors. -/
theorem load_cases (host : LoaderHost) (c : ValueContext) :
    (∃ (st : Settings) (jp : JPConfig IPv4Address), DescribesSettings host c.node st ∧
      List.Forall₂ LoadedAs st.groups jp.groups) ∨
      (∃ what, DirThrows host c.node what) ∨
      ∃ es b, es ≠ [] ∧ loadPIMCConfig host c = .ret (es, b) := by
  unfold loadPIMCConfig
  cases hm : c.getMapping "" with
  | error e => exact Or.inr (Or.inr ⟨_, _, List.cons_ne_nil e [], rfl⟩)
  | ok m =>
    obtain ⟨line, entries, hnode, rfl⟩ := getMapping_ok.mp hm
    cases hcfg : loadLoggingConfig host (MappingContext.optional
        ⟨"", c.node, entries, c.ctx, .empty⟩ "logging").1 with
    | error what =>
      obtain ⟨v, hv, hthrows⟩ := loadLoggingConfig_throws.mp hcfg
      have hfield := (@MappingContext.optional_iff ⟨"", c.node, entries, c.ctx, .empty⟩ "logging"
        False fun n => LoggingConfigLoader.DirThrows host n what).mp (Or.inr ⟨v, hv, hthrows⟩)
      obtain ⟨_, hno⟩ | ⟨n, hlookup, hthrows'⟩ := hfield
      · exact hno.elim
      · exact Or.inr (Or.inl ⟨what, line, entries, n, hnode, hlookup, hthrows'⟩)
    | ok rLogging =>
      obtain ⟨rPim, hrPim, hpim⟩ := (accepts_pim host).required
        (MappingContext.optional ⟨"", c.node, entries, c.ctx, .empty⟩ "logging").2 "pim"
      obtain ⟨rJP, hrJP, hjp⟩ := accepts_multicast.required
        ((MappingContext.optional ⟨"", c.node, entries, c.ctx, .empty⟩ "logging").2.required
          "pim").2 "multicast"
      simp only [hcfg, hrPim, hrJP, raised_ok, Outcome.ret_bind]
      refine or_iff_not_imp_right.mpr fun hno => ?_
      have hnil := of_not_not fun hne => hno (Or.inr ⟨_, _, hne, rfl⟩)
      obtain ⟨⟨⟨hlog, hpimNil⟩, hjpNil⟩, hextra⟩ : ((_ ∧ _) ∧ _) ∧ _ := by
        simpa only [List.append_eq_nil_iff] using hnil
      have hfields : Fields entries ["logging", "pim", "multicast"] :=
        (extraneous_known ["logging", "pim", "multicast"]).mp hextra
      obtain ⟨n, _, hn, ⟨nei, info, addr, hdescribes, _⟩, _⟩ := hpim hpimNil
      obtain ⟨n', jp, hn', ⟨ds, hdoc, hloaded⟩, _⟩ := hjp hjpNil
      cases rLogging with
      | error es =>
        have hes : es = [] := hlog
        rw [hes] at hcfg
        exact absurd hcfg (loadLoggingConfig_errors _ _)
      | ok cfg =>
        obtain ⟨b, hb, _⟩ := (loadLoggingConfig_optional hfields).mp hcfg
        exact ⟨⟨b, nei, info, addr, ds⟩, jp, ⟨line, entries, hnode, hfields, hb,
          ⟨n, lookup_entry hn, hdescribes⟩, n', lookup_entry hn', hdoc⟩, hloaded⟩

/-! ### The updates -/

/-- Each group asks for state, and no RP comes to a last free slot. -/
def Packable (groups : List (GroupConfig IPv4Address)) : Prop :=
  (∀ g ∈ groups, ¬g.Degenerate) ∧ InverseUpdatePacker.NoLoss groups

/-- The configuration that is built. -/
def configOf (logging : LoggingConfig) (pimsm : PIMSMIntfConfig) (jp : JPConfig IPv4Address)
    (us vs : List (Update IPv4Address)) : LoadedConfig where
  pimsmConfig := pimsm.toPIMSMConfig
  updates := us
  inverseUpdates := vs
  loggingConfig := logging
  intfIndex := pimsm.intfIndex
  intfName := pimsm.intfName
  jpConfig := jp

theorem build_packable {jp : JPConfig IPv4Address} (hdist : jp.DistinctGroups)
    (hproper : ∀ g ∈ jp.groups, g.Proper) (h : Packable jp.groups) (logging : LoggingConfig)
    (pimsm : PIMSMIntfConfig) {us vs : List (Update IPv4Address)}
    (hus : Returns (fun fuel => pack fuel jp) us)
    (hvs : Returns (fun fuel => inversePack fuel jp) vs) :
    Returns (fun fuel => build fuel ⟨some logging, some pimsm, some jp⟩)
      (configOf logging pimsm jp us vs) := by
  obtain ⟨p, hp, hinv⟩ := pack_placed jp hdist fun g hg => (hproper g hg).limit
  obtain ⟨q, hq, hinv'⟩ := inversePack_placed jp hdist
  have hverify : verifyUpdates jp us = .ok () := by
    rw [hus.unique hp, verifyUpdates_ok_iff jp hdist]
    exact (verified_build_iff hinv hproper).mpr h.1
  have hverify' : verifyInverseUpdates jp vs = .ok () := by
    rw [hvs.unique hq, verifyInverseUpdates_ok_iff jp hdist]
    exact (inverseVerified_build_iff hinv' fun g hg => (hproper g hg).spt_nodup).mpr ⟨h.2, h.1⟩
  unfold build
  apply (hus.mapError _).bind
  rw [hverify]
  apply Returns.bind (a := ()) (Returns.of_eq fun _ => rfl)
  apply (hvs.mapError _).bind
  rw [hverify']
  exact Returns.of_eq fun _ => rfl

theorem build_not_packable {jp : JPConfig IPv4Address} (hdist : jp.DistinctGroups)
    (hproper : ∀ g ∈ jp.groups, g.Proper) (h : ¬Packable jp.groups) (logging : LoggingConfig)
    (pimsm : PIMSMIntfConfig) :
    ∃ what, Settles (fun fuel => build fuel ⟨some logging, some pimsm, some jp⟩)
      (.throws (.logicError what)) := by
  obtain ⟨p, hp, hinv⟩ := pack_placed jp hdist fun g hg => (hproper g hg).limit
  obtain ⟨q, hq, hinv'⟩ := inversePack_placed jp hdist
  unfold build
  cases hverify : verifyUpdates jp p.build with
  | error what =>
    refine ⟨what, (hp.mapError _).bind_settles ?_⟩
    rw [hverify]
    exact Settles.of_eq fun _ => rfl
  | ok u =>
    have hasks := (verified_build_iff hinv hproper).mp ((verifyUpdates_ok_iff jp hdist _).mp hverify)
    cases hverify' : verifyInverseUpdates jp q.build with
    | ok u' =>
      have hboth := (inverseVerified_build_iff hinv' fun g hg => (hproper g hg).spt_nodup).mp
        ((verifyInverseUpdates_ok_iff jp hdist _).mp hverify')
      exact absurd ⟨hasks, hboth.1⟩ h
    | error what =>
      refine ⟨what, (hp.mapError _).bind_settles ?_⟩
      rw [hverify]
      apply Returns.bind_settles (a := ()) (Returns.of_eq fun _ => rfl)
      apply (hq.mapError _).bind_settles
      rw [hverify']
      exact Settles.of_eq fun _ => rfl

end PIMCConfigLoader

/-! ### Groups and their documents -/

/-- What inverse packing has to know of a group. -/
def GroupConfig.shape {A : Type} (g : GroupConfig A) : Bool × ℕ := (g.rpt.isSome, g.spt.length)

namespace InverseUpdatePacker

variable {A : Type} {gs gs' : List (GroupConfig A)}

theorem spaceLeft_congr (h : gs.map (·.shape) = gs'.map (·.shape)) :
    spaceLeft gs = spaceLeft gs' := by
  have hshape : ∀ hs : List (GroupConfig A), spaceLeft hs = (hs.map (·.shape)).foldl
      (fun r s => spaceAfter r ((if s.1 then 1 else 0) + s.2)) Params.JPCapacity := by
    intro hs
    rw [List.foldl_map]
    rfl
  rw [hshape, hshape, h]

theorem NoLoss.congr (h : gs.map (·.shape) = gs'.map (·.shape)) (hno : NoLoss gs) :
    NoLoss gs' := by
  intro pre' g' post' hsplit' hloses
  rw [hsplit', List.map_append, List.map_cons] at h
  obtain ⟨pre, rest, rfl, hpre, hrest⟩ := List.map_eq_append_iff.mp h
  obtain ⟨g, post, rfl, hg, _⟩ := List.map_eq_cons_iff.mp hrest
  obtain ⟨hrpt, hspt, hroom⟩ := hloses
  obtain ⟨hsome, hlen⟩ := Prod.mk.inj hg
  refine hno pre g post rfl ⟨hsome.trans hrpt, fun hnil => hspt ?_, ?_⟩
  · rw [hnil] at hlen
    exact List.length_eq_zero_iff.mp hlen.symm
  · rw [spaceLeft_congr hpre]
    exact hroom

end InverseUpdatePacker

theorem LoadedAs.shape_eq {d g : GroupConfig IPv4Address} (h : LoadedAs d g) (hd : d.spt.Nodup) :
    d.shape = g.shape := by
  have hperm : d.spt.Perm g.spt :=
    (List.perm_ext_iff_of_nodup hd h.spt_sorted.nodup).mpr fun a => (h.spt a).symm
  have hrpt : d.rpt.isSome = g.rpt.isSome := by
    have hrp := congrArg Option.isSome h.rp
    rw [Option.isSome_map, Option.isSome_map] at hrp
    exact hrp.symm
  unfold GroupConfig.shape
  rw [hrpt, hperm.length_eq]

theorem shapes_eq {ds gs : List (GroupConfig IPv4Address)} (h : List.Forall₂ LoadedAs ds gs)
    (hds : ∀ d ∈ ds, d.spt.Nodup) : ds.map (·.shape) = gs.map (·.shape) := by
  induction h with
  | nil => rfl
  | cons hdg _ ih =>
    obtain ⟨hd, hds⟩ := List.forall_mem_cons.mp hds
    rw [List.map_cons, List.map_cons, hdg.shape_eq hd, ih hds]

theorem Documented.spt_nodup {n : Node} {ds : List (GroupConfig IPv4Address)}
    (h : Documented n ds) : ∀ d ∈ ds, d.spt.Nodup := by
  obtain ⟨line, entries, _, _, hds, _⟩ := h
  intro d hd
  obtain ⟨e, _, he⟩ := exists_left hds hd
  exact (List.nodup_append.mp he.distinct).2.1

/-- The order of the sources does not matter to the packers. -/
theorem packable_iff {n : Node} {ds gs : List (GroupConfig IPv4Address)} (h : Documented n ds)
    (hgs : List.Forall₂ LoadedAs ds gs) :
    PIMCConfigLoader.Packable gs ↔ PIMCConfigLoader.Packable ds := by
  have hshapes := shapes_eq hgs h.spt_nodup
  have hdegenerate := forall_mem_iff hgs fun d g hdg => not_congr hdg.degenerate_iff.symm
  refine and_congr hdegenerate.symm ⟨fun hno => ?_, fun hno => ?_⟩
  · exact hno.congr hshapes.symm
  · exact hno.congr hshapes

/-! ### Four outcomes -/

/-- The configuration `cfg` is that of the settings, with its sources in ascending order, and
the updates of its groups. -/
structure LoadedFrom (host : LoaderHost) (st : Settings) (cfg : LoadedConfig) : Prop where
  groups : List.Forall₂ LoadedAs st.groups cfg.jpConfig.groups
  updates : Returns (fun fuel => pack fuel cfg.jpConfig) cfg.updates
  inverseUpdates : Returns (fun fuel => inversePack fuel cfg.jpConfig) cfg.inverseUpdates
  rest : cfg = PIMCConfigLoader.configOf (st.logging.build host)
    (PIMSMConfigLoader.configOf host st.neighbor st.intf st.intfAddr) cfg.jpConfig cfg.updates
    cfg.inverseUpdates

section Outcomes

variable {host : LoaderHost} {c : ValueContext} {st : Settings} {jp : JPConfig IPv4Address}

theorem DescribesSettings.documented (h : DescribesSettings host c.node st) :
    ∃ n, Documented n st.groups := by
  obtain ⟨_, _, _, _, _, _, n, _, hdoc⟩ := h
  exact ⟨n, hdoc⟩

theorem DescribesSettings.distinct (h : DescribesSettings host c.node st)
    (hgroups : List.Forall₂ LoadedAs st.groups jp.groups) : jp.DistinctGroups := by
  obtain ⟨n, line, entries, _, _, _, hnodup⟩ := h.documented
  unfold JPConfig.DistinctGroups
  rw [groups_of_loadedAs hgroups]
  exact hnodup

theorem DescribesSettings.proper (h : DescribesSettings host c.node st)
    (hgroups : List.Forall₂ LoadedAs st.groups jp.groups) : ∀ g ∈ jp.groups, g.Proper := by
  obtain ⟨n, line, entries, _, _, hds, _⟩ := h.documented
  exact proper_of_forall₂ hds hgroups

theorem DescribesSettings.packable_iff (h : DescribesSettings host c.node st)
    (hgroups : List.Forall₂ LoadedAs st.groups jp.groups) :
    PIMCConfigLoader.Packable jp.groups ↔ PIMCConfigLoader.Packable st.groups := by
  obtain ⟨n, hdoc⟩ := h.documented
  exact Pimc.packable_iff hdoc hgroups

/-- What a described document comes to is what `build` comes to. -/
theorem loadPIMCConfig_described (h : DescribesSettings host c.node st)
    (hgroups : List.Forall₂ LoadedAs st.groups jp.groups) (fuel : ℕ) :
    loadPIMCConfig host fuel c =
      (PIMCConfigLoader.loaderOf host st jp).build fuel >>= fun cfg => .ret (.ok cfg) := by
  unfold loadPIMCConfig
  rw [PIMCConfigLoader.load_described h hgroups, Outcome.ret_bind, if_neg (not_not.mpr rfl)]
  rfl

theorem loads_described (h : DescribesSettings host c.node st)
    (hgroups : List.Forall₂ LoadedAs st.groups jp.groups)
    (hpack : PIMCConfigLoader.Packable st.groups) :
    ∃ cfg, LoadedFrom host st cfg ∧ cfg.jpConfig = jp ∧
      Returns (fun fuel => loadPIMCConfig host fuel c) (.ok cfg) := by
  have hdist := h.distinct hgroups
  have hproper := h.proper hgroups
  obtain ⟨p, hp, _⟩ := pack_placed jp hdist fun g hg => (hproper g hg).limit
  obtain ⟨q, hq, _⟩ := inversePack_placed jp hdist
  refine ⟨PIMCConfigLoader.configOf _ _ jp p.build q.build, ⟨hgroups, hp, hq, rfl⟩, rfl, ?_⟩
  simp only [loadPIMCConfig_described h hgroups]
  exact (PIMCConfigLoader.build_packable hdist hproper ((h.packable_iff hgroups).mpr hpack)
    _ _ hp hq).bind (Returns.of_eq fun _ => rfl)

theorem throws_described (h : DescribesSettings host c.node st)
    (hgroups : List.Forall₂ LoadedAs st.groups jp.groups)
    (hpack : ¬PIMCConfigLoader.Packable st.groups) :
    ∃ what, Settles (fun fuel => loadPIMCConfig host fuel c) (.throws (.logicError what)) := by
  obtain ⟨what, hwhat⟩ := PIMCConfigLoader.build_not_packable (h.distinct hgroups)
    (h.proper hgroups) (fun hjp => hpack ((h.packable_iff hgroups).mp hjp))
    (st.logging.build host) (PIMSMConfigLoader.configOf host st.neighbor st.intf st.intfAddr)
  refine ⟨what, ?_⟩
  simp only [loadPIMCConfig_described h hgroups]
  exact hwhat.bind_throws _

theorem LoadedFrom.unique {cfg cfg' : LoadedConfig} (h : LoadedFrom host st cfg)
    (h' : LoadedFrom host st cfg') (hjp : cfg.jpConfig = cfg'.jpConfig) : cfg = cfg' := by
  have hus := h'.updates
  have hvs := h'.inverseUpdates
  rw [← hjp] at hus hvs
  rw [h.rest, h'.rest, h.updates.unique hus, h.inverseUpdates.unique hvs, hjp]

theorem fails_of_errors {es : List ErrorContext} {b : PIMCConfigLoader} (hne : es ≠ [])
    (h : PIMCConfigLoader.loadPIMCConfig host c = .ret (es, b)) :
    Returns (fun fuel => loadPIMCConfig host fuel c) (.error es) := by
  apply Returns.of_eq
  intro fuel
  unfold loadPIMCConfig
  rw [h, Outcome.ret_bind, if_pos hne]
  rfl

theorem throws_of_dirThrows {what : String} (h : DirThrows host c.node what) :
    Settles (fun fuel => loadPIMCConfig host fuel c) (.throws (.filesystemError what)) := by
  apply Settles.of_eq
  intro fuel
  unfold loadPIMCConfig
  rw [PIMCConfigLoader.loadPIMCConfig_throws h]
  rfl

theorem exists_loadedGroups (ds : List (GroupConfig IPv4Address)) :
    ∃ jp : JPConfig IPv4Address, List.Forall₂ LoadedAs ds jp.groups := by
  choose load hload using exists_loadedAs
  exact ⟨⟨ds.map load⟩, List.forall₂_map_right_iff.mpr (List.forall₂_same.mpr fun d _ => hload d)⟩

theorem loadPIMCConfig_cases (host : LoaderHost) (c : ValueContext) :
    (∃ st cfg, DescribesSettings host c.node st ∧ PIMCConfigLoader.Packable st.groups ∧
      LoadedFrom host st cfg ∧ Settles (fun fuel => loadPIMCConfig host fuel c) (.ret (.ok cfg))) ∨
    (∃ st what, DescribesSettings host c.node st ∧ ¬PIMCConfigLoader.Packable st.groups ∧
      Settles (fun fuel => loadPIMCConfig host fuel c) (.throws (.logicError what))) ∨
    (∃ what, DirThrows host c.node what ∧
      Settles (fun fuel => loadPIMCConfig host fuel c) (.throws (.filesystemError what))) ∨
    ∃ es, es ≠ [] ∧ Settles (fun fuel => loadPIMCConfig host fuel c) (.ret (.error es)) := by
  rcases PIMCConfigLoader.load_cases host c with ⟨st, jp, hst, hjp⟩ | ⟨what, hdir⟩ |
    ⟨es, b, hne, herrors⟩
  · by_cases hpack : PIMCConfigLoader.Packable st.groups
    · obtain ⟨cfg, hfrom, _, hret⟩ := loads_described hst hjp hpack
      exact Or.inl ⟨st, cfg, hst, hpack, hfrom, hret⟩
    · obtain ⟨what, hthrows⟩ := throws_described hst hjp hpack
      exact Or.inr (Or.inl ⟨st, what, hst, hpack, hthrows⟩)
  · exact Or.inr (Or.inr (Or.inl ⟨what, hdir, throws_of_dirThrows hdir⟩))
  · exact Or.inr (Or.inr (Or.inr ⟨es, hne, fails_of_errors hne herrors⟩))

/-- Whatever settings a document is read as having, the configuration is theirs. -/
theorem loadedFrom_of_returns {cfg : LoadedConfig} (h : DescribesSettings host c.node st)
    (hload : Returns (fun fuel => loadPIMCConfig host fuel c) (.ok cfg)) :
    LoadedFrom host st cfg ∧ PIMCConfigLoader.Packable st.groups := by
  obtain ⟨jp, hjp⟩ := exists_loadedGroups st.groups
  by_cases hpack : PIMCConfigLoader.Packable st.groups
  · obtain ⟨cfg', hfrom, _, hret⟩ := loads_described h hjp hpack
    injection hload.unique hret with hcfg
    rw [hcfg]
    exact ⟨hfrom, hpack⟩
  · obtain ⟨what, hthrows⟩ := throws_described h hjp hpack
    cases hthrows.unique hload

end Outcomes

/-- One of four things happens to a document, and the document says which. -/
theorem loadPIMCConfig_exact (host : LoaderHost) (c : ValueContext) :
    (∀ cfg, Returns (fun fuel => loadPIMCConfig host fuel c) (.ok cfg) ↔
      ∃ st, DescribesSettings host c.node st ∧ PIMCConfigLoader.Packable st.groups ∧
        LoadedFrom host st cfg) ∧
    ((∃ what, Settles (fun fuel => loadPIMCConfig host fuel c) (.throws (.logicError what))) ↔
      ∃ st, DescribesSettings host c.node st ∧ ¬PIMCConfigLoader.Packable st.groups) ∧
    (∀ what, Settles (fun fuel => loadPIMCConfig host fuel c) (.throws (.filesystemError what)) ↔
      DirThrows host c.node what) ∧
    ((∃ es, es ≠ [] ∧ Returns (fun fuel => loadPIMCConfig host fuel c) (.error es)) ↔
      (¬∃ st, DescribesSettings host c.node st) ∧ ¬∃ what, DirThrows host c.node what) := by
  refine ⟨fun cfg => ⟨fun h => ?_, fun h => ?_⟩, ⟨fun h => ?_, fun h => ?_⟩,
    fun what => ⟨fun h => ?_, throws_of_dirThrows⟩, ⟨fun h => ⟨fun h' => ?_, fun h' => ?_⟩,
    fun h => ?_⟩⟩
  · rcases loadPIMCConfig_cases host c with ⟨st, cfg', hst, hpack, hfrom, hret⟩ |
      ⟨_, _, _, _, hthrows⟩ | ⟨_, _, hthrows⟩ | ⟨_, _, herrors⟩
    · cases hret.unique h
      exact ⟨st, hst, hpack, hfrom⟩
    · cases hthrows.unique h
    · cases hthrows.unique h
    · cases herrors.unique h
  · obtain ⟨st, hst, hpack, hfrom⟩ := h
    obtain ⟨cfg', hfrom', hjp, hret⟩ := loads_described hst hfrom.groups hpack
    rw [hfrom.unique hfrom' hjp.symm]
    exact hret
  · obtain ⟨what, hwhat⟩ := h
    rcases loadPIMCConfig_cases host c with ⟨_, _, _, _, _, hret⟩ |
      ⟨st, _, hst, hpack, _⟩ | ⟨_, _, hthrows⟩ | ⟨_, _, herrors⟩
    · cases hret.unique hwhat
    · exact ⟨st, hst, hpack⟩
    · cases hthrows.unique hwhat
    · cases herrors.unique hwhat
  · obtain ⟨st, hst, hpack⟩ := h
    obtain ⟨jp, hjp⟩ := exists_loadedGroups st.groups
    exact throws_described hst hjp hpack
  · rcases loadPIMCConfig_cases host c with ⟨_, _, _, _, _, hret⟩ |
      ⟨_, _, _, _, hthrows⟩ | ⟨what', hdir, hthrows⟩ | ⟨_, _, herrors⟩
    · cases hret.unique h
    · cases hthrows.unique h
    · cases hthrows.unique h
      exact hdir
    · cases herrors.unique h
  · obtain ⟨es, _, herrors⟩ := h
    obtain ⟨st, hst⟩ := h'
    obtain ⟨jp, hjp⟩ := exists_loadedGroups st.groups
    by_cases hpack : PIMCConfigLoader.Packable st.groups
    · obtain ⟨_, _, _, hret⟩ := loads_described hst hjp hpack
      cases hret.unique herrors
    · obtain ⟨_, hthrows⟩ := throws_described hst hjp hpack
      cases hthrows.unique herrors
  · obtain ⟨es, _, herrors⟩ := h
    obtain ⟨what, hdir⟩ := h'
    cases (throws_of_dirThrows hdir).unique herrors
  · rcases loadPIMCConfig_cases host c with ⟨st, _, hst, _⟩ | ⟨st, _, hst, _⟩ |
      ⟨what, hdir, _⟩ | herrors
    · exact absurd ⟨st, hst⟩ h.1
    · exact absurd ⟨st, hst⟩ h.1
    · exact absurd ⟨what, hdir⟩ h.2
    · exact herrors

def sampleIntf : IntfInfo := ⟨"eth0", 2, some (.ofOctets 10 0 0 1)⟩

def sampleLoaderHost : LoaderHost where
  intfTable := ⟨(UnorderedMap.empty.tryEmplace 2 sampleIntf).1,
    (UnorderedMap.empty.tryEmplace "eth0" 2).1⟩
  pathExists _ := .ok false
  isDirectory _ := .ok false
  fileTime := "20240101-000000"
  generationId := 1

def sampleDocument : Node :=
  .map 0 [(.scalar 0 "pim", .map 1 [(.scalar 1 "neighbor", .scalar 1 "10.0.0.2"),
    (.scalar 2 "interface", .scalar 2 "eth0")]), (.scalar 3 "multicast", sampleSection)]

def sampleSettings : Settings where
  logging := .init
  neighbor := .ofOctets 10 0 0 2
  intf := sampleIntf
  intfAddr := .ofOctets 10 0 0 1
  groups := [⟨.ofOctets 239 1 2 3, some sampleRpt, [.ofOctets 10 5 5 5]⟩]

theorem sampleDocument_describes :
    DescribesSettings sampleLoaderHost sampleDocument sampleSettings := by
  refine ⟨0, _, rfl, ⟨["pim", "multicast"], rfl, by decide, ?_⟩, Or.inl ⟨?_, rfl⟩,
    ⟨_, ⟨_, rfl, List.Mem.head _⟩, 1, _, rfl, ⟨["neighbor", "interface"], rfl, by decide,
      fun _ h => h⟩, ⟨_, ⟨_, rfl, List.Mem.head _⟩, nodeUnicast_of rfl⟩,
      ⟨_, "eth0", ⟨_, rfl, List.Mem.tail _ (List.Mem.head _)⟩, rfl, rfl⟩, rfl⟩,
    _, ⟨_, rfl, List.Mem.tail _ (List.Mem.head _)⟩, sampleSection_documented⟩
  · intro f hf
    exact List.mem_cons_of_mem _ hf
  · intro n h
    obtain ⟨key, hkey, hin⟩ := h
    simp only [List.mem_cons, Prod.mk.injEq, List.not_mem_nil, or_false] at hin
    rcases hin with ⟨rfl, _⟩ | ⟨rfl, _⟩
    · exact absurd hkey (by decide)
    · exact absurd hkey (by decide)

theorem sampleSettings_packable : PIMCConfigLoader.Packable sampleSettings.groups := by
  constructor
  · intro g hg hdegenerate
    rw [List.mem_singleton.mp hg] at hdegenerate
    cases hdegenerate.1
  · apply (@InverseUpdatePacker.noLoss_snoc _ [] _).mpr
    refine ⟨InverseUpdatePacker.noLoss_nil, fun hloses => ?_⟩
    exact absurd hloses.2.2 (by decide)

theorem sampleDocument_loads : ∃ cfg, Returns
    (fun fuel => loadPIMCConfig sampleLoaderHost fuel (.root sampleDocument)) (.ok cfg) := by
  obtain ⟨cfg, _, _, hret⟩ := @loads_described _ (.root sampleDocument) _ sampleConfig
    sampleDocument_describes sampleSection_loadedAs sampleSettings_packable
  exact ⟨cfg, hret⟩

end Pimc
