import Pimc.Config.LoaderExact
import Pimc.Config.PIMCConfig
import Pimc.Net.IntfTable

/-!
# The logging and PIM-SM sections (config/LoggingConfigLoader.hpp, PIMSMConfigLoader.hpp)

The file system, the clock, the random generation ID and the interface table are
the host's. The file system may throw instead of answering.
-/

namespace Pimc

open Lib Logged Yaml

inductive Level where
  | None
  | Critical
  | Error
  | Warning
  | Info
  | Debug
  deriving DecidableEq, Repr

structure LoaderHost where
  intfTable : IntfTable
  /-- An error is the text of the `filesystem_error` that is thrown. -/
  pathExists : String → Except String Bool
  isDirectory : String → Except String Bool
  /-- The clock in the local time zone as `%Y%m%d-%H%M%S`. -/
  fileTime : String
  generationId : BitVec 32

def chkExtraneous {σ : Type} (mCtx : MappingContext) : Logged ErrorContext σ Unit :=
  reportAll mCtx.extraneous

/-! ### The logging section -/

def ciAsciiStrEq (lhs rhs : String) : Bool :=
  lhs.toList.map Char.toLower == rhs.toList.map Char.toLower

structure LoggingConfig where
  level : Level
  logFileName : Option String
  deriving DecidableEq, Repr

structure LoggingConfigLoader where
  level : Level
  dir : Option String

namespace LoggingConfigLoader

def init : LoggingConfigLoader := ⟨.Info, none⟩

abbrev Load := Logged ErrorContext LoggingConfigLoader

def levelOf (ln : String) : Option Level :=
  if ciAsciiStrEq ln "None" then some .None
  else if ciAsciiStrEq ln "Critical" then some .Critical
  else if ciAsciiStrEq ln "Error" then some .Error
  else if ciAsciiStrEq ln "Warning" then some .Warning
  else if ciAsciiStrEq ln "Info" then some .Info
  else if ciAsciiStrEq ln "Debug" then some .Debug
  else none

/-- The part of `getLevel` for a field that is there. -/
def getLevel (lvl : ValueContext) : Load Unit := do
  let rLvl ← chk (lvl.getScalar "Logging Level Name")
  ifSome rLvl fun rLvl =>
    match levelOf rLvl.value with
    | some level => adjust fun b => { b with level := level }
    | none => report (rLvl.error s!"invalid logging level name '{rLvl.value}'")

/-- The part of `getDir` after the lookup. What the loader holds does not matter to the file
system, so the exception comes first. -/
def getDir (host : LoaderHost) (oDir : Option ValueContext) : Except String (Load Unit) :=
  match oDir with
  | none => return quiet ()
  | some dir =>
    match dir.getScalar "Logging Directory" with
    | .error e => return report e
    | .ok rDir => do
      if ← host.pathExists rDir.value then
        if ← host.isDirectory rDir.value then
          return adjust fun b => { b with dir := some rDir.value }
        else return report (rDir.error s!"'{rDir.value}' is not a directory")
      else return report (rDir.error s!"directory '{rDir.value}' does not exist")

def loadLoggingConfig (host : LoaderHost) (ovCtx : Option ValueContext) :
    Except String (Load Unit) :=
  match ovCtx with
  | none => return quiet ()
  | some vCtx =>
    match vCtx.getMapping "Logging Config" with
    | .error e => return report e
    | .ok loggingCfg => do
      let oLvl := loggingCfg.optional "level"
      let oDir := oLvl.2.optional "dir"
      let loadDir ← getDir host oDir.1
      return do
        ifSome oLvl.1 getLevel
        loadDir
        chkExtraneous oDir.2

/-- `dp / name` -/
def inDir (dir name : String) : String :=
  if dir.endsWith "/" then dir ++ name else dir ++ "/" ++ name

def build (host : LoaderHost) (b : LoggingConfigLoader) : LoggingConfig where
  level := b.level
  logFileName := b.dir.map fun dir => inDir dir s!"pimc-{host.fileTime}.log"

end LoggingConfigLoader

def loadLoggingConfig (host : LoaderHost) (ovCtx : Option ValueContext) :
    Except String (Except (List ErrorContext) LoggingConfig) :=
  (LoggingConfigLoader.loadLoggingConfig host ovCtx).map fun load =>
    let r := load .init
    if r.1 ≠ [] then .error r.1 else .ok (r.2.2.build host)

/-! ### The PIM-SM section -/

/-- `PIMSMConfig` with all its fields. -/
structure PIMSMIntfConfig extends PIMSMConfig IPv4Address where
  intfIndex : BitVec 32
  intfName : String

/-- The constructor leaves `intfIndex` uninitialized, which is `none`. -/
structure PIMSMConfigLoader where
  neighbor : IPv4Address
  intfIndex : Option (BitVec 32)
  intfAddr : IPv4Address
  intfName : String

namespace PIMSMConfigLoader

def init : PIMSMConfigLoader := ⟨⟨0⟩, none, ⟨0⟩, ""⟩

abbrev Load := Logged ErrorContext PIMSMConfigLoader

def loadNeighbor (rNei : Except ErrorContext ScalarContext) : Load Unit := do
  let rNei ← chk rNei
  ifSome rNei fun rNei => do
    let rNeiA ← chk ((ucAddr rNei.value .Neighbor).mapError rNei.error)
    ifSome rNeiA fun nei => adjust fun b => { b with neighbor := nei }

def loadInterface (host : LoaderHost) (rIntf : Except ErrorContext ScalarContext) : Load Unit := do
  let rIntf ← chk rIntf
  ifSome rIntf fun rIntf =>
    match host.intfTable.byName rIntf.value with
    | none => report (rIntf.error
        (s!"unknown interface '{rIntf.value}'\n\n" ++ "  available interfaces:\n" ++
          host.intfTable.format 2))
    | some info =>
      match info.ipv4addr with
      | none => report (rIntf.error
          (s!"interface {rIntf.value} has no IPv4 address\n" ++ "  available interfaces:\n" ++
            host.intfTable.format 2))
      | some intfAddr => adjust fun b =>
          { b with intfIndex := some info.ifindex, intfAddr := intfAddr, intfName := info.name }

def loadPIMSMConfig (host : LoaderHost) (vCtx : ValueContext) : Load Unit := do
  let rPIMSMCfg ← chk (vCtx.getMapping "PIM-SM config")
  ifSome rPIMSMCfg fun cfg => do
    let rNei := cfg.required "neighbor"
    loadNeighbor (rNei.1.bind fun vctx => vctx.getScalar "neighbor IPv4 address")
    let rIntf := rNei.2.required "interface"
    loadInterface host (rIntf.1.bind fun vctx => vctx.getScalar "PIM SM IPv4 interface")
    chkExtraneous rIntf.2

/-- The periods and hold times are not configured. -/
def build (host : LoaderHost) (b : PIMSMConfigLoader) : Option PIMSMIntfConfig :=
  b.intfIndex.map fun intfIndex => {
    neighbor := b.neighbor, intfAddr := b.intfAddr, helloPeriod := 30, helloHoldtime := 105,
    jpPeriod := 60, jpHoldtime := 210, drPriority := 0, generationId := host.generationId,
    intfIndex := intfIndex, intfName := b.intfName }

end PIMSMConfigLoader

/-- `none` is a read of the uninitialized member. -/
def loadPIMSMConfig (host : LoaderHost) (pimsmCfgCtx : ValueContext) :
    Option (Except (List ErrorContext) PIMSMIntfConfig) :=
  let r := PIMSMConfigLoader.loadPIMSMConfig host pimsmCfgCtx .init
  if r.1 ≠ [] then some (.error r.1) else (r.2.2.build host).map .ok

/-! ### What the sections say -/

theorem extraneous_known {name : String} {node : Node} {entries : List (Node × Node)}
    {ctx : List String} (fields : List String) :
    MappingContext.extraneous ⟨name, node, entries, ctx,
      fields.foldl (fun known f => known.emplace f) .empty⟩ = [] ↔ Fields entries fields := by
  have hknown : ∀ (fs : List String) (known : UnorderedSet String) (field : String),
      field ∈ (fs.foldl (fun known f => known.emplace f) known).toList ↔
        field ∈ known.toList ∨ field ∈ fs := by
    intro fs
    induction fs with
    | nil => simp
    | cons f fs ih =>
      intro known field
      rw [List.foldl_cons, ih, UnorderedSet.mem_emplace, List.mem_cons]
      tauto
  have hempty : ∀ field, field ∉ (UnorderedSet.empty : UnorderedSet String).toList :=
    fun _ => List.not_mem_nil
  rw [MappingContext.extraneous_eq_nil_iff]
  simp only [hknown, hempty, false_or]
  rfl

theorem optional_entry {m : MappingContext} {allowed : List String}
    (hfields : Fields m.entries allowed) {field : String} {P : Prop} {Q : Node → Prop} :
    ((m.optional field).1 = none ∧ P ∨ ∃ v, (m.optional field).1 = some v ∧ Q v.node) ↔
      ((∀ n, ¬Entry m.entries field n) ∧ P ∨ ∃ n, Entry m.entries field n ∧ Q n) := by
  rw [MappingContext.optional_iff]
  simp only [lookup_eq_some hfields, lookup_eq_none]

/-- `n` is a scalar with the text `s`. -/
def Text (n : Node) (s : String) : Prop := n.str? = some s

theorem getScalar_text {c : ValueContext} {name : String} {P : String → Prop} :
    (∃ sc, c.getScalar name = .ok sc ∧ P sc.value) ↔ ∃ s, Text c.node s ∧ P s := by
  constructor
  · intro h
    obtain ⟨sc, hsc, hP⟩ := h
    obtain ⟨line, value, hnode, rfl⟩ := getScalar_ok.mp hsc
    exact ⟨value, Node.str?_eq_some.mpr ⟨line, hnode⟩, hP⟩
  · intro h
    obtain ⟨s, hs, hP⟩ := h
    obtain ⟨line, hnode⟩ := Node.str?_eq_some.mp hs
    exact ⟨_, getScalar_ok.mpr ⟨line, s, hnode, rfl⟩, hP⟩

def Level.name : Level → String
  | .None => "None"
  | .Critical => "Critical"
  | .Error => "Error"
  | .Warning => "Warning"
  | .Info => "Info"
  | .Debug => "Debug"

def LoaderHost.HasDirectory (host : LoaderHost) (path : String) : Prop :=
  host.pathExists path = .ok true ∧ host.isDirectory path = .ok true

/-- The file system throws when it is asked for the directory `path`. -/
def LoaderHost.Throws (host : LoaderHost) (path what : String) : Prop :=
  host.pathExists path = .error what ∨
    host.pathExists path = .ok true ∧ host.isDirectory path = .error what

theorem LoaderHost.Throws.unique {host : LoaderHost} {path what what' : String}
    (h : host.Throws path what) (h' : host.Throws path what') : what = what' := by
  rcases h with hexists | ⟨hexists, hdir⟩
  · rcases h' with hexists' | ⟨hexists', _⟩
    · cases hexists.symm.trans hexists'
      rfl
    · cases hexists.symm.trans hexists'
  · rcases h' with hexists' | ⟨_, hdir'⟩
    · cases hexists.symm.trans hexists'
    · cases hdir.symm.trans hdir'
      rfl

theorem LoaderHost.HasDirectory.not_throws {host : LoaderHost} {path what : String}
    (h : host.HasDirectory path) : ¬host.Throws path what := by
  intro hthrows
  rcases hthrows with hexists | ⟨_, hdir⟩
  · cases h.1.symm.trans hexists
  · cases h.2.symm.trans hdir

namespace LoggingConfigLoader

theorem levelOf_eq_some {ln : String} {level : Level} :
    levelOf ln = some level ↔ ciAsciiStrEq ln level.name = true := by
  constructor
  · intro h
    unfold levelOf at h
    split_ifs at h <;>
    · injection h with h
      subst h
      assumption
  · intro h
    have hlower : ln.toList.map Char.toLower = level.name.toList.map Char.toLower := beq_iff_eq.mp h
    have hsame : ∀ s, ciAsciiStrEq ln s = ciAsciiStrEq level.name s := by
      intro s
      unfold ciAsciiStrEq
      rw [hlower]
    have heq : levelOf ln = levelOf level.name := by
      unfold levelOf
      simp only [hsame]
    rw [heq]
    cases level <;> decide

theorem getLevel_meets (lvl : ValueContext) : Meets id (getLevel lvl) fun b b' =>
    ∃ s, Text lvl.node s ∧ ∃ level, levelOf s = some level ∧ b' = { b with level := level } := by
  have h : Meets id (getLevel lvl) fun b b' => ∃ sc, lvl.getScalar "Logging Level Name" = .ok sc ∧
      ∃ level, levelOf sc.value = some level ∧ b' = { b with level := level } := by
    apply Meets.chk
    intro sc _
    cases levelOf sc.value with
    | none => exact (Meets.report _).congr fun b b' => by simp
    | some level => exact (Meets.adjust_id _).congr fun b b' => by simp
  exact h.congr fun b b' => getScalar_text
    (P := fun s => ∃ level, levelOf s = some level ∧ b' = { b with level := level })

/-- The directory is not a scalar, or the file system throws, or it has the directory or not. -/
theorem getDir_cases (host : LoaderHost) (dir : ValueContext) :
    (∃ e, dir.getScalar "Logging Directory" = .error e ∧
      getDir host (some dir) = .ok (report e)) ∨
    ∃ sc, dir.getScalar "Logging Directory" = .ok sc ∧
      ((∃ what, host.Throws sc.value what ∧ getDir host (some dir) = .error what) ∨
        (host.HasDirectory sc.value ∧
          getDir host (some dir) = .ok (adjust fun b => { b with dir := some sc.value })) ∨
        ∃ e, ¬host.HasDirectory sc.value ∧ (∀ what, ¬host.Throws sc.value what) ∧
          getDir host (some dir) = .ok (report e)) := by
  unfold getDir LoaderHost.Throws LoaderHost.HasDirectory
  dsimp only
  cases dir.getScalar "Logging Directory" with
  | error e => exact Or.inl ⟨e, rfl, rfl⟩
  | ok sc =>
    refine Or.inr ⟨sc, rfl, ?_⟩
    dsimp only
    cases host.pathExists sc.value with
    | error what => exact Or.inl ⟨what, Or.inl rfl, rfl⟩
    | ok found =>
      cases found with
      | false => exact Or.inr (Or.inr ⟨_, by simp, by simp, rfl⟩)
      | true =>
        cases host.isDirectory sc.value with
        | error what => exact Or.inl ⟨what, Or.inr ⟨rfl, rfl⟩, rfl⟩
        | ok isDir =>
          cases isDir with
          | false => exact Or.inr (Or.inr ⟨_, by simp, by simp, rfl⟩)
          | true => exact Or.inr (Or.inl ⟨⟨rfl, rfl⟩, rfl⟩)

theorem getDir_throws {host : LoaderHost} {oDir : Option ValueContext} {what : String} :
    getDir host oDir = .error what ↔
      ∃ dir, oDir = some dir ∧ ∃ s, Text dir.node s ∧ host.Throws s what := by
  cases oDir with
  | none => exact ⟨nofun, nofun⟩
  | some dir =>
    simp only [Option.some.injEq, exists_eq_left']
    rw [← @getScalar_text dir "Logging Directory"]
    rcases getDir_cases host dir with ⟨e, hsc, hdir⟩ | ⟨sc, hsc, ⟨what', hthrows, hdir⟩ |
      ⟨hhas, hdir⟩ | ⟨e, _, hno, hdir⟩⟩
    · simp [hsc, hdir]
    · simp only [hsc, hdir, Except.error.injEq, Except.ok.injEq, exists_eq_left']
      constructor
      · rintro rfl
        exact hthrows
      · exact hthrows.unique
    · simp [hsc, hdir, hhas.not_throws]
    · simp [hsc, hdir, hno]

theorem getDir_meets {host : LoaderHost} {oDir : Option ValueContext} {load : Load Unit}
    (hload : getDir host oDir = .ok load) : Meets id load fun b b' =>
      oDir = none ∧ b' = b ∨ ∃ dir, oDir = some dir ∧ ∃ s, Text dir.node s ∧
        host.HasDirectory s ∧ b' = { b with dir := some s } := by
  cases oDir with
  | none =>
    injection hload with hload
    rw [← hload]
    exact Meets.quiet.congr fun b b' => by simp
  | some dir =>
    have h : Meets id load fun b b' => ∃ sc, dir.getScalar "Logging Directory" = .ok sc ∧
        host.HasDirectory sc.value ∧ b' = { b with dir := some sc.value } := by
      rcases getDir_cases host dir with ⟨e, hsc, hdir⟩ | ⟨sc, hsc, ⟨what', _, hdir⟩ |
        ⟨hhas, hdir⟩ | ⟨e, hno, _, hdir⟩⟩
      · cases hdir.symm.trans hload
        exact (Meets.report e).congr fun b b' => by simp [hsc]
      · cases hdir.symm.trans hload
      · cases hdir.symm.trans hload
        exact (Meets.adjust_id _).congr fun b b' => by simp [hsc, hhas]
      · cases hdir.symm.trans hload
        exact (Meets.report e).congr fun b b' => by simp [hsc, hno]
    refine h.congr fun b b' => ?_
    simp only [reduceCtorEq, false_and, false_or, Option.some.injEq, exists_eq_left']
    exact getScalar_text (P := fun s => host.HasDirectory s ∧ b' = { b with dir := some s })

/-- The keys `level` and `dir` of the logging section. -/
def SaysLevel (entries : List (Node × Node)) (level : Level) : Prop :=
  ((∀ n, ¬Entry entries "level" n) ∧ level = .Info) ∨
    ∃ n s, Entry entries "level" n ∧ Text n s ∧ ciAsciiStrEq s level.name = true

def SaysDir (host : LoaderHost) (entries : List (Node × Node)) (dir : Option String) : Prop :=
  ((∀ n, ¬Entry entries "dir" n) ∧ dir = none) ∨
    ∃ n s, Entry entries "dir" n ∧ Text n s ∧ host.HasDirectory s ∧ dir = some s

/-- `n` is a logging section with the level and the directory of `b`. -/
def Describes (host : LoaderHost) (n : Node) (b : LoggingConfigLoader) : Prop :=
  ∃ line entries, n = .map line entries ∧ Fields entries ["level", "dir"] ∧
    SaysLevel entries b.level ∧ SaysDir host entries b.dir

/-- The directory that is found in the section `n` is one on which the file system throws. The
other fields do not matter. -/
def DirThrows (host : LoaderHost) (n : Node) (what : String) : Prop :=
  ∃ line entries m s, n = .map line entries ∧ Node.lookup entries "dir" = some m ∧ Text m s ∧
    host.Throws s what

theorem Describes.not_dirThrows {host : LoaderHost} {n : Node} {b : LoggingConfigLoader}
    {what : String} (h : Describes host n b) : ¬DirThrows host n what := by
  intro hdir
  obtain ⟨line, entries, rfl, hfields, _, hsays⟩ := h
  obtain ⟨_, _, m, s, heq, hlookup, hs, hthrows⟩ := hdir
  cases heq
  rcases hsays with ⟨hno, _⟩ | ⟨m', s', hentry, hs', hhas, _⟩
  · exact hno m (lookup_entry hlookup)
  · have hm : m = m' := Option.some.inj (hlookup.symm.trans (entry_lookup hfields hentry))
    subst hm
    cases Option.some.inj (hs.symm.trans hs')
    exact hhas.not_throws hthrows

theorem levelEntry_iff {m : MappingContext} (hfields : Fields m.entries ["level", "dir"])
    {b' : LoggingConfigLoader} :
    ((m.optional "level").1 = none ∧ b' = .init ∨ ∃ lvl, (m.optional "level").1 = some lvl ∧
        ∃ s, Text lvl.node s ∧ ∃ level, levelOf s = some level ∧ b' = ⟨level, none⟩) ↔
      ∃ level, SaysLevel m.entries level ∧ b' = ⟨level, none⟩ := by
  refine (optional_entry hfields (Q := fun n => ∃ s, Text n s ∧ ∃ level, levelOf s = some level ∧
    b' = ⟨level, none⟩)).trans ?_
  simp only [levelOf_eq_some]
  constructor
  · intro h
    rcases h with ⟨hno, rfl⟩ | ⟨n, hn, s, hs, level, hlevel, rfl⟩
    · exact ⟨.Info, Or.inl ⟨hno, rfl⟩, rfl⟩
    · exact ⟨level, Or.inr ⟨n, s, hn, hs, hlevel⟩, rfl⟩
  · intro h
    obtain ⟨level, ⟨hno, rfl⟩ | ⟨n, s, hn, hs, hlevel⟩, rfl⟩ := h
    · exact Or.inl ⟨hno, rfl⟩
    · exact Or.inr ⟨n, hn, s, hs, level, hlevel, rfl⟩

theorem dirEntry_iff {host : LoaderHost} {m : MappingContext}
    (hfields : Fields m.entries ["level", "dir"]) {level : Level} {b' : LoggingConfigLoader} :
    ((m.optional "dir").1 = none ∧ b' = ⟨level, none⟩ ∨ ∃ dir, (m.optional "dir").1 = some dir ∧
        ∃ s, Text dir.node s ∧ host.HasDirectory s ∧ b' = ⟨level, some s⟩) ↔
      ∃ dir, SaysDir host m.entries dir ∧ b' = ⟨level, dir⟩ := by
  refine (optional_entry hfields (Q := fun n => ∃ s, Text n s ∧ host.HasDirectory s ∧
    b' = ⟨level, some s⟩)).trans ?_
  constructor
  · intro h
    rcases h with ⟨hno, rfl⟩ | ⟨n, hn, s, hs, hhas, rfl⟩
    · exact ⟨none, Or.inl ⟨hno, rfl⟩, rfl⟩
    · exact ⟨some s, Or.inr ⟨n, s, hn, hs, hhas, rfl⟩, rfl⟩
  · intro h
    obtain ⟨dir, ⟨hno, rfl⟩ | ⟨n, s, hn, hs, hhas, rfl⟩, rfl⟩ := h
    · exact Or.inl ⟨hno, rfl⟩
    · exact Or.inr ⟨n, hn, s, hs, hhas, rfl⟩

theorem loadLoggingConfig_cases (host : LoaderHost) (c : ValueContext) :
    (∃ e, c.getMapping "Logging Config" = .error e ∧
      loadLoggingConfig host (some c) = .ok (report e)) ∨
    ∃ m, c.getMapping "Logging Config" = .ok m ∧ loadLoggingConfig host (some c) =
      (getDir host ((m.optional "level").2.optional "dir").1).map fun loadDir => (do
        ifSome (m.optional "level").1 getLevel
        loadDir
        chkExtraneous ((m.optional "level").2.optional "dir").2) := by
  unfold loadLoggingConfig
  dsimp only
  cases c.getMapping "Logging Config" with
  | error e => exact Or.inl ⟨e, rfl, rfl⟩
  | ok m =>
    refine Or.inr ⟨m, rfl, ?_⟩
    dsimp only
    cases getDir host ((m.optional "level").2.optional "dir").1 <;> rfl

theorem loadLoggingConfig_throws {host : LoaderHost} {c : ValueContext} {what : String} :
    loadLoggingConfig host (some c) = .error what ↔ DirThrows host c.node what := by
  rcases loadLoggingConfig_cases host c with ⟨e, hm, hload⟩ | ⟨m, hm, hload⟩
  · rw [hload]
    refine ⟨nofun, fun h => ?_⟩
    obtain ⟨line, entries, _, _, hnode, _⟩ := h
    cases hm.symm.trans (getMapping_ok.mpr ⟨line, entries, hnode, rfl⟩)
  · have hdir : loadLoggingConfig host (some c) = .error what ↔
        getDir host ((m.optional "level").2.optional "dir").1 = .error what := by
      rw [hload]
      cases getDir host ((m.optional "level").2.optional "dir").1 <;> simp [Except.map]
    obtain ⟨line, entries, hnode, rfl⟩ := getMapping_ok.mp hm
    rw [hdir, getDir_throws]
    have hlookup := @MappingContext.optional_iff (MappingContext.optional
      ⟨"Logging Config", c.node, entries, c.ctx, .empty⟩ "level").2 "dir" False
      (fun n => ∃ s, Text n s ∧ host.Throws s what)
    simp only [and_false, false_or] at hlookup
    rw [hlookup]
    constructor
    · intro h
      obtain ⟨n, hn, s, hs, hthrows⟩ := h
      exact ⟨line, entries, n, s, hnode, hn, hs, hthrows⟩
    · intro h
      obtain ⟨_, _, n, s, hnode', hn, hs, hthrows⟩ := h
      cases hnode.symm.trans hnode'
      exact ⟨n, hn, s, hs, hthrows⟩

theorem clean_loadLoggingConfig {host : LoaderHost} {c : ValueContext} {b : LoggingConfigLoader}
    {load : Load Unit} (hload : loadLoggingConfig host (some c) = .ok load) :
    Clean load .init () b ↔ Describes host c.node b := by
  rcases loadLoggingConfig_cases host c with ⟨e, hm, hreport⟩ | ⟨m, hm, hdir⟩
  · cases hreport.symm.trans hload
    refine ⟨fun h => absurd h clean_report, fun h => ?_⟩
    obtain ⟨line, entries, hnode, _⟩ := h
    cases hm.symm.trans (getMapping_ok.mpr ⟨line, entries, hnode, rfl⟩)
  · rw [hload] at hdir
    cases hask : getDir host ((m.optional "level").2.optional "dir").1 with
    | error what =>
      rw [hask] at hdir
      cases hdir
    | ok loadDir =>
      rw [hask] at hdir
      injection hdir with hdir
      have hmeets : Meets id load fun b b'' =>
          ∃ b', ((m.optional "level").1 = none ∧ b' = b ∨ ∃ lvl, (m.optional "level").1 = some lvl ∧
            ∃ s, Text lvl.node s ∧ ∃ level, levelOf s = some level ∧
              b' = { b with level := level }) ∧
          ∃ b1, (((m.optional "level").2.optional "dir").1 = none ∧ b1 = b' ∨
            ∃ dir, ((m.optional "level").2.optional "dir").1 = some dir ∧ ∃ s, Text dir.node s ∧
              host.HasDirectory s ∧ b1 = { b' with dir := some s }) ∧
          ((m.optional "level").2.optional "dir").2.extraneous = [] ∧ b'' = b1 := by
        rw [hdir]
        exact Meets.seq (Meets.ifSome fun lvl _ => getLevel_meets lvl)
          (Meets.seq (getDir_meets hask) (Meets.reportAll _))
      have hclean := hmeets .init b
      simp only [id, exists_eq_right] at hclean
      rw [hclean]
      obtain ⟨line, entries, hnode, rfl⟩ := getMapping_ok.mp hm
      constructor
      · intro h'
        obtain ⟨b', hlevel, b1, hdir', hextra, rfl⟩ := h'
        have hfields : Fields entries ["level", "dir"] :=
          (extraneous_known ["level", "dir"]).mp hextra
        obtain ⟨level, hsays, rfl⟩ := (levelEntry_iff hfields).mp hlevel
        obtain ⟨dir, hsays', rfl⟩ := (dirEntry_iff hfields).mp hdir'
        exact ⟨line, entries, hnode, hfields, hsays, hsays'⟩
      · intro h'
        obtain ⟨_, _, hnode', hfields, hlevel, hdir'⟩ := h'
        cases hnode.symm.trans hnode'
        exact ⟨_, (levelEntry_iff hfields).mpr ⟨_, hlevel, rfl⟩,
          _, (dirEntry_iff hfields).mpr ⟨_, hdir', rfl⟩,
          (extraneous_known ["level", "dir"]).mpr hfields, rfl⟩

theorem clean_noLoggingConfig {b : LoggingConfigLoader} :
    Clean (quiet () : Load Unit) .init () b ↔ b = .init :=
  clean_pure.trans (by simp)

end LoggingConfigLoader

theorem loadLoggingConfig_throws {host : LoaderHost} {ovCtx : Option ValueContext}
    {what : String} : loadLoggingConfig host ovCtx = .error what ↔
      ∃ v, ovCtx = some v ∧ LoggingConfigLoader.DirThrows host v.node what := by
  have hload : loadLoggingConfig host ovCtx = .error what ↔
      LoggingConfigLoader.loadLoggingConfig host ovCtx = .error what := by
    unfold loadLoggingConfig
    cases LoggingConfigLoader.loadLoggingConfig host ovCtx <;> simp [Except.map]
  rw [hload]
  cases ovCtx with
  | none => exact ⟨nofun, nofun⟩
  | some v =>
    simp only [Option.some.injEq, exists_eq_left']
    exact LoggingConfigLoader.loadLoggingConfig_throws

theorem loadLoggingConfig_ok {host : LoaderHost} {ovCtx : Option ValueContext}
    {cfg : LoggingConfig} :
    loadLoggingConfig host ovCtx = .ok (.ok cfg) ↔
      ∃ b, (ovCtx = none ∧ b = .init ∨
        ∃ v, ovCtx = some v ∧ LoggingConfigLoader.Describes host v.node b) ∧ cfg = b.build host := by
  have hgiven : ∀ load, LoggingConfigLoader.loadLoggingConfig host ovCtx = .ok load →
      (loadLoggingConfig host ovCtx = .ok (.ok cfg) ↔
        ∃ b, Clean load .init () b ∧ cfg = b.build host) := by
    intro load hload
    unfold loadLoggingConfig
    rw [hload]
    apply Iff.trans (Except.ok.injEq _ _).to_iff
    apply (given_iff_clean (g := fun b : LoggingConfigLoader => Except.ok (b.build host))
      (by simp)).trans
    simp only [Except.ok.injEq, @eq_comm _ cfg]
  cases ovCtx with
  | none =>
    rw [hgiven _ rfl]
    simp only [LoggingConfigLoader.clean_noLoggingConfig, reduceCtorEq, false_and, exists_false,
      or_false, true_and]
  | some v =>
    simp only [reduceCtorEq, false_and, false_or, Option.some.injEq, exists_eq_left']
    cases hload : LoggingConfigLoader.loadLoggingConfig host (some v) with
    | error what =>
      have hthrows := LoggingConfigLoader.loadLoggingConfig_throws.mp hload
      have herror := loadLoggingConfig_throws.mpr ⟨v, rfl, hthrows⟩
      rw [herror]
      refine ⟨nofun, fun h => ?_⟩
      obtain ⟨b, hdescribes, _⟩ := h
      exact absurd hthrows hdescribes.not_dirThrows
    | ok load =>
      rw [hgiven _ hload]
      simp only [LoggingConfigLoader.clean_loadLoggingConfig hload]

namespace PIMSMConfigLoader

theorem mapError_ucAddr_ok {sc : ScalarContext} {typ : UCAddrType} {a : IPv4Address} :
    (ucAddr sc.value typ).mapError sc.error = .ok a ↔ Unicast sc.value a := by
  have hok : Unicast sc.value a ↔ ucAddr sc.value typ = .ok a := ucAddr_ok.symm
  rw [hok]
  cases ucAddr sc.value typ with
  | ok b => simp only [Except.mapError, Except.ok.injEq]
  | error e => exact ⟨nofun, nofun⟩

theorem bind_getScalar_text {o : Except ErrorContext ValueContext} {name : String}
    {P : String → Prop} :
    (∃ sc, (o.bind fun vctx => vctx.getScalar name) = .ok sc ∧ P sc.value) ↔
      ∃ c, o = .ok c ∧ ∃ s, Text c.node s ∧ P s := by
  cases o with
  | error e => simp [Except.bind]
  | ok c =>
    simp only [Except.bind, Except.ok.injEq, exists_eq_left']
    exact getScalar_text

theorem loadNeighbor_meets {o : Except ErrorContext ValueContext} {name : String} :
    Meets id (loadNeighbor (o.bind fun vctx => vctx.getScalar name)) fun b b' =>
      ∃ c, o = .ok c ∧ ∃ s, Text c.node s ∧ ∃ a, Unicast s a ∧ b' = { b with neighbor := a } := by
  have h : Meets id (loadNeighbor (o.bind fun vctx => vctx.getScalar name)) fun b b' =>
      ∃ sc, (o.bind fun vctx => vctx.getScalar name) = .ok sc ∧
        ∃ a, (ucAddr sc.value .Neighbor).mapError sc.error = .ok a ∧
          b' = { b with neighbor := a } :=
    Meets.chk fun sc _ => Meets.chk fun a _ => Meets.adjust_id _
  simp only [mapError_ucAddr_ok] at h
  exact h.congr fun b b' => bind_getScalar_text
    (P := fun s => ∃ a, Unicast s a ∧ b' = { b with neighbor := a })

theorem loadInterface_meets {host : LoaderHost} {o : Except ErrorContext ValueContext}
    {name : String} :
    Meets id (loadInterface host (o.bind fun vctx => vctx.getScalar name)) fun b b' =>
      ∃ c, o = .ok c ∧ ∃ s, Text c.node s ∧ ∃ info addr, host.intfTable.byName s = some info ∧
        info.ipv4addr = some addr ∧
        b' = ⟨b.neighbor, some info.ifindex, addr, info.name⟩ := by
  have h : Meets id (loadInterface host (o.bind fun vctx => vctx.getScalar name)) fun b b' =>
      ∃ sc, (o.bind fun vctx => vctx.getScalar name) = .ok sc ∧
        ∃ info addr, host.intfTable.byName sc.value = some info ∧ info.ipv4addr = some addr ∧
          b' = ⟨b.neighbor, some info.ifindex, addr, info.name⟩ := by
    apply Meets.chk
    intro sc _
    cases hinfo : host.intfTable.byName sc.value with
    | none => exact (Meets.report _).congr fun b b' => by simp
    | some info =>
      dsimp only
      cases haddr : info.ipv4addr with
      | none => exact (Meets.report _).congr fun b b' => by simp [haddr]
      | some addr => exact (Meets.adjust_id _).congr fun b b' => by simp [haddr]
  exact h.congr fun b b' => bind_getScalar_text
    (P := fun s => ∃ info addr, host.intfTable.byName s = some info ∧
      info.ipv4addr = some addr ∧ b' = ⟨b.neighbor, some info.ifindex, addr, info.name⟩)

/-- `n` is a PIM-SM section with the neighbor `nei`, on the interface `info` with the address
`addr`. -/
def Describes (host : LoaderHost) (n : Node) (nei : IPv4Address) (info : IntfInfo)
    (addr : IPv4Address) : Prop :=
  ∃ line entries, n = .map line entries ∧ Fields entries ["neighbor", "interface"] ∧
    (∃ m, Entry entries "neighbor" m ∧ NodeUnicast m nei) ∧
    (∃ m s, Entry entries "interface" m ∧ Text m s ∧ host.intfTable.byName s = some info) ∧
    info.ipv4addr = some addr

theorem clean_loadPIMSMConfig {host : LoaderHost} {c : ValueContext} {b b' : PIMSMConfigLoader} :
    Clean (loadPIMSMConfig host c) b () b' ↔ ∃ nei info addr, Describes host c.node nei info addr ∧
      b' = ⟨nei, some info.ifindex, addr, info.name⟩ := by
  have h : Meets id (loadPIMSMConfig host c) fun b b' =>
      ∃ m, c.getMapping "PIM-SM config" = .ok m ∧
        ∃ b1, (∃ v, (m.required "neighbor").1 = .ok v ∧ ∃ s, Text v.node s ∧ ∃ a, Unicast s a ∧
          b1 = { b with neighbor := a }) ∧
        ∃ b2, (∃ v, ((m.required "neighbor").2.required "interface").1 = .ok v ∧
          ∃ s, Text v.node s ∧ ∃ info addr, host.intfTable.byName s = some info ∧
            info.ipv4addr = some addr ∧ b2 = ⟨b1.neighbor, some info.ifindex, addr, info.name⟩) ∧
        ((m.required "neighbor").2.required "interface").2.extraneous = [] ∧ b' = b2 :=
    Meets.chk fun m _ => Meets.seq loadNeighbor_meets (Meets.seq loadInterface_meets
      (Meets.reportAll _))
  have hclean := h b b'
  simp only [id, exists_eq_right] at hclean
  rw [hclean]
  constructor
  · intro h'
    obtain ⟨m, hm, b1, ⟨v, hv, s, hs, nei, hnei, rfl⟩, b2,
      ⟨v', hv', s', hs', info, addr, hinfo, haddr, rfl⟩, hextra, rfl⟩ := h'
    obtain ⟨line, entries, hnode, rfl⟩ := getMapping_ok.mp hm
    have hfields : Fields entries ["neighbor", "interface"] :=
      (extraneous_known ["neighbor", "interface"]).mp hextra
    obtain ⟨n, hn, rfl⟩ := MappingContext.required_ok.mp hv
    obtain ⟨n', hn', rfl⟩ := MappingContext.required_ok.mp hv'
    exact ⟨nei, info, addr, ⟨line, entries, hnode, hfields, ⟨n, lookup_entry hn, s, hs, hnei⟩,
      ⟨n', s', lookup_entry hn', hs', hinfo⟩, haddr⟩, rfl⟩
  · intro h'
    obtain ⟨nei, info, addr, ⟨line, entries, hnode, hfields, ⟨n, hn, s, hs, hnei⟩,
      ⟨n', s', hn', hs', hinfo⟩, haddr⟩, rfl⟩ := h'
    refine ⟨_, getMapping_ok.mpr ⟨line, entries, hnode, rfl⟩, { b with neighbor := nei },
      ⟨_, MappingContext.required_ok.mpr ⟨n, entry_lookup hfields hn, rfl⟩, s, hs, nei, hnei, rfl⟩,
      _, ⟨_, MappingContext.required_ok.mpr ⟨n', entry_lookup hfields hn', rfl⟩, s', hs', info,
        addr, hinfo, haddr, rfl⟩, ?_, rfl⟩
    exact (extraneous_known ["neighbor", "interface"]).mpr hfields

/-- The configuration of a PIM-SM section. -/
def configOf (host : LoaderHost) (nei : IPv4Address) (info : IntfInfo) (addr : IPv4Address) :
    PIMSMIntfConfig where
  neighbor := nei
  intfAddr := addr
  helloPeriod := 30
  helloHoldtime := 105
  jpPeriod := 60
  jpHoldtime := 210
  drPriority := 0
  generationId := host.generationId
  intfIndex := info.ifindex
  intfName := info.name

end PIMSMConfigLoader

/-- The uninitialized member is never read. -/
theorem loadPIMSMConfig_cases (host : LoaderHost) (c : ValueContext) :
    (∃ cfg, loadPIMSMConfig host c = some (.ok cfg)) ∨
      ∃ es, es ≠ [] ∧ loadPIMSMConfig host c = some (.error es) := by
  unfold loadPIMSMConfig
  by_cases herrors : (PIMSMConfigLoader.loadPIMSMConfig host c .init).1 = []
  · left
    obtain ⟨b, hclean⟩ := errors_eq_nil_iff.mp herrors
    obtain ⟨nei, info, addr, _, rfl⟩ := PIMSMConfigLoader.clean_loadPIMSMConfig.mp hclean
    refine ⟨PIMSMConfigLoader.configOf host nei info addr, ?_⟩
    rw [hclean]
    rfl
  · exact Or.inr ⟨_, herrors, if_pos herrors⟩

theorem loadPIMSMConfig_ok {host : LoaderHost} {c : ValueContext} {cfg : PIMSMIntfConfig} :
    loadPIMSMConfig host c = some (.ok cfg) ↔
      ∃ nei info addr, PIMSMConfigLoader.Describes host c.node nei info addr ∧
        cfg = PIMSMConfigLoader.configOf host nei info addr := by
  have hgiven : loadPIMSMConfig host c = some (.ok cfg) ↔
      ∃ b, Clean (PIMSMConfigLoader.loadPIMSMConfig host c) .init () b ∧
        (b.build host).map Except.ok = some (.ok cfg) :=
    given_iff_clean (g := fun b : PIMSMConfigLoader => (b.build host).map Except.ok) (by simp)
  rw [hgiven]
  apply Iff.intro
  · intro h
    obtain ⟨b, hclean, hbuild⟩ := h
    obtain ⟨nei, info, addr, hdescribes, rfl⟩ :=
      PIMSMConfigLoader.clean_loadPIMSMConfig.mp hclean
    injection hbuild with hbuild
    injection hbuild with hbuild
    exact ⟨nei, info, addr, hdescribes, hbuild.symm⟩
  · intro h
    obtain ⟨nei, info, addr, hdescribes, rfl⟩ := h
    exact ⟨_, PIMSMConfigLoader.clean_loadPIMSMConfig.mpr ⟨nei, info, addr, hdescribes, rfl⟩, rfl⟩

end Pimc
