import Pimc.Config.LoaderRuns

/-!
# The language of the multicast section

What a YAML tree says is written down without reference to the loader: a group
config in document order for each entry of the mapping. The loader accepts
exactly the trees that say something, and loads what they say.
-/

namespace Pimc

open Lib Logged Yaml

/-! ### The documented language -/

/-- The keys are distinct strings of `allowed`. -/
def Fields (entries : List (Node × Node)) (allowed : List String) : Prop :=
  ∃ fields : List String, entries.map (fun e => e.1.str?) = fields.map some ∧ fields.Nodup ∧
    ∀ f ∈ fields, f ∈ allowed

/-- `n` is a value of the key `field`. -/
def Entry (entries : List (Node × Node)) (field : String) (n : Node) : Prop :=
  ∃ key, key.str? = some field ∧ (key, n) ∈ entries

/-- The key `field` is missing, or has a sequence of the addresses `as`. -/
def AddressList (entries : List (Node × Node)) (field : String) (as : List IPv4Address) : Prop :=
  ((∀ n, ¬ Entry entries field n) ∧ as = []) ∨
    ∃ line elems, Entry entries field (.sequence line elems) ∧ List.Forall₂ NodeUnicast elems as

/-- The value of a `Join*` key. -/
def DescribesRpt (n : Node) (rpt : RPT IPv4Address) : Prop :=
  ∃ line entries, n = .map line entries ∧ Fields entries ["RP", "Prune"] ∧
    (∃ m, Entry entries "RP" m ∧ NodeUnicast m rpt.rp) ∧ AddressList entries "Prune" rpt.prunes

/-- The `Join*` key of a group. -/
def OptionalRpt (entries : List (Node × Node)) (o : Option (RPT IPv4Address)) : Prop :=
  (o = none ∧ ∀ n, ¬ Entry entries "Join*" n) ∨
    ∃ rpt n, o = some rpt ∧ Entry entries "Join*" n ∧ DescribesRpt n rpt

/-- The value of a group. -/
def DescribesGroup (n : Node) (rpt : Option (RPT IPv4Address)) (spt : List IPv4Address) : Prop :=
  ∃ line entries, n = .map line entries ∧ Fields entries ["Join*", "Join"] ∧
    (∃ m, Entry entries "Join*" m ∨ Entry entries "Join" m) ∧ OptionalRpt entries rpt ∧
    AddressList entries "Join" spt

/-- The RP, the RPT-pruned and the SPT-joined sources of a group. -/
def GroupConfig.addresses {A : Type} (g : GroupConfig A) : List A :=
  (match g.rpt with
    | none => []
    | some rpt => rpt.rp :: rpt.prunes) ++ g.spt

/-- The entry says what `g` is, with its sources in document order. -/
structure Describes (e : Node × Node) (g : GroupConfig IPv4Address) : Prop where
  key : ∃ s, e.1.str? = some s ∧ Multicast s g.group
  value : DescribesGroup e.2 g.rpt g.spt
  distinct : g.addresses.Nodup
  limit : g.prunes.length ≤ 180

/-- `v` is a multicast section which describes the groups `gs`. -/
def Documented (v : Node) (gs : List (GroupConfig IPv4Address)) : Prop :=
  ∃ line entries, v = .map line entries ∧ entries ≠ [] ∧ List.Forall₂ Describes entries gs ∧
    (gs.map (·.group)).Nodup

/-- `g` is the group `d`, with the sources in ascending order. -/
structure LoadedAs (d g : GroupConfig IPv4Address) : Prop where
  group : g.group = d.group
  rp : g.rpt.map (·.rp) = d.rpt.map (·.rp)
  prunes_sorted : g.prunes.SortedLT
  prunes : ∀ a, a ∈ g.prunes ↔ a ∈ d.prunes
  spt_sorted : g.spt.SortedLT
  spt : ∀ a, a ∈ g.spt ↔ a ∈ d.spt

/-! ### Fields -/

theorem lookup_eq_none {entries : List (Node × Node)} {field : String} :
    Node.lookup entries field = none ↔ ∀ n, ¬ Entry entries field n := by
  rw [Node.lookup, Option.map_eq_none_iff, List.find?_eq_none]
  apply Iff.intro
  · intro h n h'
    obtain ⟨key, hkey, hin⟩ := h'
    have hne := h _ hin
    rw [hkey] at hne
    simp at hne
  · intro h e he
    rw [beq_iff_eq]
    intro hstr
    exact h e.2 ⟨e.1, hstr, he⟩

theorem lookup_entry {entries : List (Node × Node)} {field : String} {n : Node}
    (h : Node.lookup entries field = some n) : Entry entries field n := by
  obtain ⟨e, hfind, rfl⟩ := Option.map_eq_some_iff.mp h
  have hkey := List.find?_some hfind
  rw [beq_iff_eq] at hkey
  exact ⟨e.1, hkey, List.mem_of_find?_eq_some hfind⟩

theorem entry_lookup {entries : List (Node × Node)} {allowed : List String}
    (hfields : Fields entries allowed) {field : String} {n : Node} (h : Entry entries field n) :
    Node.lookup entries field = some n := by
  obtain ⟨fields, hmap, hnodup, _⟩ := hfields
  obtain ⟨key, hkey, hin⟩ := h
  have hkeys : (entries.map fun e => e.1.str?).Nodup := by
    rw [hmap]
    exact hnodup.map (Option.some_injective _)
  cases hlookup : Node.lookup entries field with
  | none => exact absurd ⟨key, hkey, hin⟩ (lookup_eq_none.mp hlookup n)
  | some m =>
    obtain ⟨key', hkey', hin'⟩ := lookup_entry hlookup
    have hsame : ((key', m) : Node × Node) = (key, n) :=
      List.inj_on_of_nodup_map hkeys hin' hin (hkey'.trans hkey.symm)
    rw [(Prod.mk.inj hsame).2]

theorem lookup_eq_some {entries : List (Node × Node)} {allowed : List String}
    (hfields : Fields entries allowed) {field : String} {n : Node} :
    Node.lookup entries field = some n ↔ Entry entries field n :=
  ⟨lookup_entry, entry_lookup hfields⟩

theorem extraneous_two {name : String} {node : Node} {entries : List (Node × Node)}
    {ctx : List String} (f g : String) :
    MappingContext.extraneous ⟨name, node, entries, ctx,
        (UnorderedSet.empty.emplace f).emplace g⟩ = [] ↔ Fields entries [f, g] := by
  have hknown : ∀ field, field ∈ ((UnorderedSet.empty.emplace f).emplace g).toList ↔
      field ∈ [f, g] := by
    intro field
    rw [UnorderedSet.mem_emplace, UnorderedSet.mem_emplace, List.mem_cons, List.mem_singleton]
    have hempty : field ∉ (UnorderedSet.empty : UnorderedSet String).toList := List.not_mem_nil
    tauto
  rw [MappingContext.extraneous_eq_nil_iff]
  simp only [hknown]
  rfl

/-! ### The RPT config -/

namespace JPGroupConfigBuilder

theorem pruneEntry_iff {m : MappingContext} (hfields : Fields m.entries ["RP", "Prune"])
    {v v' : View} :
    ((m.optional "Prune").1 = none ∧ v' = v ∨
      ∃ c, (m.optional "Prune").1 = some c ∧
        ∃ line elems as, c.node = .sequence line elems ∧ Fresh elems v as ∧
          (as = [] ∨ v.count + as.length ≤ 180) ∧ v' = as.foldl View.addPrune v) ↔
      ∃ as, AddressList m.entries "Prune" as ∧ as.Nodup ∧ (∀ a ∈ as, a ∉ v.seen) ∧
        (as = [] ∨ v.count + as.length ≤ 180) ∧ v' = as.foldl View.addPrune v := by
  refine (MappingContext.optional_iff (Q := fun n => ∃ line elems as, n = .sequence line elems ∧
    Fresh elems v as ∧ (as = [] ∨ v.count + as.length ≤ 180) ∧
      v' = as.foldl View.addPrune v)).trans ?_
  simp only [lookup_eq_some hfields, lookup_eq_none]
  apply Iff.intro
  · intro h
    rcases h with ⟨hnone, rfl⟩ | ⟨n, hentry, line, elems, as, rfl, hfresh, hcount, hv⟩
    · exact ⟨[], Or.inl ⟨hnone, rfl⟩, List.nodup_nil, by simp, Or.inl rfl, rfl⟩
    · exact ⟨as, Or.inr ⟨line, elems, hentry, hfresh.nodes⟩, hfresh.nodup, hfresh.fresh, hcount, hv⟩
  · intro h
    rcases h with ⟨as, ⟨hnone, rfl⟩ | ⟨line, elems, hentry, hnodes⟩, hnodup, hfresh, hcount, hv⟩
    · exact Or.inl ⟨hnone, hv⟩
    · exact Or.inr ⟨_, hentry, line, elems, as, rfl, ⟨hnodes, hnodup, hfresh⟩, hcount, hv⟩

/-- The view after an RPT config. -/
def View.addRpt (v : View) (rpt : RPT IPv4Address) : View :=
  rpt.prunes.foldl View.addPrune (v.addRP rpt.rp)

/-- The addresses of an RPT config are new and fit the limit. -/
structure NewRpt (v : View) (rpt : RPT IPv4Address) : Prop where
  nodup : (rpt.rp :: rpt.prunes).Nodup
  fresh : ∀ a ∈ rpt.rp :: rpt.prunes, a ∉ v.seen
  limit : rpt.prunes = [] ∨ v.count + rpt.prunes.length ≤ 180

theorem loadRPTConfig_meets (c : ValueContext) :
    Meets view (loadRPTConfig c) fun v v' =>
      ∃ rpt, DescribesRpt c.node rpt ∧ NewRpt v rpt ∧ v' = View.addRpt v rpt := by
  have h : Meets view (loadRPTConfig c) fun v v' =>
      ∃ m, c.getMapping "IPv4 RPT config" = .ok m ∧
        ∃ v1, (∃ rc, (m.required "RP").1 = .ok rc ∧ ∃ a, NodeUnicast rc.node a ∧ a ∉ v.seen ∧
          v1 = v.addRP a) ∧
        ∃ v2, (((m.required "RP").2.optional "Prune").1 = none ∧ v2 = v1 ∨
          ∃ pc, ((m.required "RP").2.optional "Prune").1 = some pc ∧
            ∃ line elems as, pc.node = .sequence line elems ∧ Fresh elems v1 as ∧
              (as = [] ∨ v1.count + as.length ≤ 180) ∧ v2 = as.foldl View.addPrune v1) ∧
        ((m.required "RP").2.optional "Prune").2.extraneous = [] ∧ v' = v2 :=
    Meets.chk fun m _ => Meets.seq loadRP_meets (Meets.seq
      (Meets.ifSome fun pc _ => loadPruneList_meets pc) (Meets.reportAll _))
  refine h.congr fun v v' => ?_
  apply Iff.intro
  · intro h'
    obtain ⟨m, hm, v1, ⟨rc, hrc, rp, hrp, hnew, rfl⟩, v2, hprune, hextra, rfl⟩ := h'
    obtain ⟨line, entries, hnode, rfl⟩ := getMapping_ok.mp hm
    have hfields : Fields entries ["RP", "Prune"] := (extraneous_two "RP" "Prune").mp hextra
    obtain ⟨n, hlookup, rfl⟩ := MappingContext.required_ok.mp hrc
    obtain ⟨as, hprunes, hnodup, hfresh, hcount, hv⟩ :=
      (pruneEntry_iff hfields).mp hprune
    have hseen : ∀ a ∈ as, a ∉ v.seen ∧ a ≠ rp := by
      intro a ha
      have hnot := hfresh a ha
      simp only [View.addRP, List.mem_append, List.mem_singleton, not_or] at hnot
      exact hnot
    refine ⟨⟨rp, as⟩, ⟨line, entries, hnode, hfields, ⟨n, lookup_entry hlookup, hrp⟩, hprunes⟩,
      ⟨?_, ?_, hcount⟩, hv⟩
    · exact List.nodup_cons.mpr ⟨fun hin => (hseen rp hin).2 rfl, hnodup⟩
    · intro a ha
      rcases List.mem_cons.mp ha with rfl | ha
      · exact hnew
      · exact (hseen a ha).1
  · intro h'
    obtain ⟨⟨rp, as⟩, ⟨line, entries, hnode, hfields, ⟨n, hentry, hrp⟩, hprunes⟩,
      ⟨hnodup, hfresh, hcount⟩, hv⟩ := h'
    obtain ⟨hnot, hnodup⟩ := List.nodup_cons.mp hnodup
    have hseen : ∀ a ∈ as, a ∉ (v.addRP rp).seen := by
      intro a ha
      simp only [View.addRP, List.mem_append, List.mem_singleton, not_or]
      refine ⟨hfresh a (List.mem_cons_of_mem rp ha), ?_⟩
      intro h'
      subst h'
      exact hnot ha
    refine ⟨_, getMapping_ok.mpr ⟨line, entries, hnode, rfl⟩, v.addRP rp, ?_, v', ?_, ?_, rfl⟩
    · exact ⟨_, MappingContext.required_ok.mpr ⟨n, entry_lookup hfields hentry, rfl⟩, rp, hrp,
        hfresh rp List.mem_cons_self, rfl⟩
    · exact (pruneEntry_iff hfields).mpr ⟨as, hprunes, hnodup, hseen, hcount, hv⟩
    · exact (extraneous_two "RP" "Prune").mpr hfields

/-! ### The group config -/

def View.addOptRpt (v : View) : Option (RPT IPv4Address) → View
  | none => v
  | some rpt => View.addRpt v rpt

/-- The addresses of a group are new. -/
structure NewGroup (v : View) (rpt : Option (RPT IPv4Address)) (spt : List IPv4Address) : Prop where
  rptNew : ∀ r, rpt = some r → NewRpt v r
  nodup : spt.Nodup
  fresh : ∀ a ∈ spt, a ∉ (View.addOptRpt v rpt).seen

theorem rptEntry_iff {m : MappingContext} (hfields : Fields m.entries ["Join*", "Join"])
    {v v' : View} :
    ((m.optional "Join*").1 = none ∧ v' = v ∨
      ∃ c, (m.optional "Join*").1 = some c ∧
        ∃ rpt, DescribesRpt c.node rpt ∧ NewRpt v rpt ∧ v' = View.addRpt v rpt) ↔
      ∃ o, OptionalRpt m.entries o ∧ (∀ r, o = some r → NewRpt v r) ∧ v' = View.addOptRpt v o := by
  refine (MappingContext.optional_iff (Q := fun n => ∃ rpt, DescribesRpt n rpt ∧ NewRpt v rpt ∧
    v' = View.addRpt v rpt)).trans ?_
  simp only [lookup_eq_some hfields, lookup_eq_none]
  apply Iff.intro
  · intro h
    rcases h with ⟨hnone, rfl⟩ | ⟨n, hentry, rpt, hrpt, hnew, hv⟩
    · exact ⟨none, Or.inl ⟨rfl, hnone⟩, nofun, rfl⟩
    · refine ⟨some rpt, Or.inr ⟨rpt, n, rfl, hentry, hrpt⟩, ?_, hv⟩
      intro r hr
      injection hr with hr
      rwa [← hr]
  · intro h
    rcases h with ⟨o, ⟨rfl, hnone⟩ | ⟨rpt, n, rfl, hentry, hrpt⟩, hnew, hv⟩
    · exact Or.inl ⟨hnone, hv⟩
    · exact Or.inr ⟨n, hentry, rpt, hrpt, hnew rpt rfl, hv⟩

theorem joinEntry_iff {m : MappingContext} (hfields : Fields m.entries ["Join*", "Join"])
    {v v' : View} :
    ((m.optional "Join").1 = none ∧ v' = v ∨
      ∃ c, (m.optional "Join").1 = some c ∧
        ∃ line elems as, c.node = .sequence line elems ∧ Fresh elems v as ∧
          v' = as.foldl View.addJoin v) ↔
      ∃ as, AddressList m.entries "Join" as ∧ as.Nodup ∧ (∀ a ∈ as, a ∉ v.seen) ∧
        v' = as.foldl View.addJoin v := by
  refine (MappingContext.optional_iff (Q := fun n => ∃ line elems as, n = .sequence line elems ∧
    Fresh elems v as ∧ v' = as.foldl View.addJoin v)).trans ?_
  simp only [lookup_eq_some hfields, lookup_eq_none]
  apply Iff.intro
  · intro h
    rcases h with ⟨hnone, rfl⟩ | ⟨n, hentry, line, elems, as, rfl, hfresh, hv⟩
    · exact ⟨[], Or.inl ⟨hnone, rfl⟩, List.nodup_nil, by simp, rfl⟩
    · exact ⟨as, Or.inr ⟨line, elems, hentry, hfresh.nodes⟩, hfresh.nodup, hfresh.fresh, hv⟩
  · intro h
    rcases h with ⟨as, ⟨hnone, rfl⟩ | ⟨line, elems, hentry, hnodes⟩, hnodup, hfresh, hv⟩
    · exact Or.inl ⟨hnone, hv⟩
    · exact Or.inr ⟨_, hentry, line, elems, as, rfl, ⟨hnodes, hnodup, hfresh⟩, hv⟩

theorem present_iff {m : MappingContext} :
    ((m.optional "Join*").1.isNone && ((m.optional "Join*").2.optional "Join").1.isNone) = false ↔
      ∃ n, Node.lookup m.entries "Join*" = some n ∨ Node.lookup m.entries "Join" = some n := by
  unfold MappingContext.optional MappingContext.know
  cases Node.lookup m.entries "Join*" <;> cases Node.lookup m.entries "Join" <;> simp

theorem loadGroupConfig_meets (c : ValueContext) :
    Meets view (loadGroupConfig c) fun v v' =>
      ∃ rpt spt, DescribesGroup c.node rpt spt ∧ NewGroup v rpt spt ∧
        v' = spt.foldl View.addJoin (View.addOptRpt v rpt) := by
  apply Meets.read
  intro b
  have h : Meets view (Logged.chk (c.getMapping s!"IPv4 group {b.group} config") >>= fun o =>
      ifSome o fun m => do
        ifSome (m.optional "Join*").1 loadRPTConfig
        ifSome ((m.optional "Join*").2.optional "Join").1 loadSPTConfig
        chkExtraneous ((m.optional "Join*").2.optional "Join").2
        reportIf ((m.optional "Join*").1.isNone &&
            ((m.optional "Join*").2.optional "Join").1.isNone)
          (c.error s!"IPv4 group {b.group} config may not be empty")) fun v v' =>
      ∃ m, c.getMapping s!"IPv4 group {b.group} config" = .ok m ∧
        ∃ v1, ((m.optional "Join*").1 = none ∧ v1 = v ∨
          ∃ rc, (m.optional "Join*").1 = some rc ∧ ∃ rpt, DescribesRpt rc.node rpt ∧
            NewRpt v rpt ∧ v1 = View.addRpt v rpt) ∧
        ∃ v2, (((m.optional "Join*").2.optional "Join").1 = none ∧ v2 = v1 ∨
          ∃ sc, ((m.optional "Join*").2.optional "Join").1 = some sc ∧
            ∃ line elems as, sc.node = .sequence line elems ∧ Fresh elems v1 as ∧
              v2 = as.foldl View.addJoin v1) ∧
        ∃ v3, (((m.optional "Join*").2.optional "Join").2.extraneous = [] ∧ v3 = v2) ∧
          ((m.optional "Join*").1.isNone &&
            ((m.optional "Join*").2.optional "Join").1.isNone) = false ∧ v' = v3 :=
    Meets.chk fun m _ => Meets.seq (Meets.ifSome fun rc _ => loadRPTConfig_meets rc)
      (Meets.seq (Meets.ifSome fun sc _ => loadSPTConfig_meets sc)
        (Meets.seq (Meets.reportAll _) (Meets.reportIf _ _)))
  refine h.congr fun v v' => ?_
  apply Iff.intro
  · intro h'
    obtain ⟨m, hm, v1, hrpt, v2, hjoin, v3, ⟨hextra, hv3⟩, hsome, hv'⟩ := h'
    obtain ⟨line, entries, hnode, rfl⟩ := getMapping_ok.mp hm
    have hfields : Fields entries ["Join*", "Join"] := (extraneous_two "Join*" "Join").mp hextra
    obtain ⟨rpt, hrptDoc, hrptNew, rfl⟩ :=
      (rptEntry_iff hfields).mp hrpt
    obtain ⟨spt, hsptDoc, hnodup, hfresh, hv2⟩ :=
      (joinEntry_iff hfields).mp hjoin
    obtain ⟨n, hpresent⟩ := present_iff.mp hsome
    refine ⟨rpt, spt, ⟨line, entries, hnode, hfields, ⟨n, ?_⟩, hrptDoc, hsptDoc⟩,
      ⟨hrptNew, hnodup, hfresh⟩, ?_⟩
    · exact hpresent.imp lookup_entry lookup_entry
    · rw [hv', hv3, hv2]
  · intro h'
    obtain ⟨rpt, spt, ⟨line, entries, hnode, hfields, ⟨n, hpresent⟩, hrptDoc, hsptDoc⟩,
      ⟨hrptNew, hnodup, hfresh⟩, hv⟩ := h'
    refine ⟨_, getMapping_ok.mpr ⟨line, entries, hnode, rfl⟩, View.addOptRpt v rpt, ?_, v', ?_,
      v', ⟨?_, rfl⟩, ?_, rfl⟩
    · exact (rptEntry_iff hfields).mpr ⟨rpt, hrptDoc, hrptNew, rfl⟩
    · exact (joinEntry_iff hfields).mpr ⟨spt, hsptDoc, hnodup, hfresh, hv⟩
    · exact (extraneous_two "Join*" "Join").mpr hfields
    · exact present_iff.mpr ⟨n, hpresent.imp (entry_lookup hfields) (entry_lookup hfields)⟩

/-! ### What is built -/

theorem addRpt_eq (v : View) (rpt : RPT IPv4Address) :
    View.addRpt v rpt = { v with
      seen := v.seen ++ rpt.rp :: rpt.prunes, count := v.count + rpt.prunes.length,
      rp := some rpt.rp, prunes := v.prunes.insertAll rpt.prunes } := by
  rw [View.addRpt, foldl_addPrune]
  simp only [View.addRP, List.append_assoc, List.singleton_append]

/-- In a new builder every address of a group is new when they are distinct. -/
theorem newGroup_init_iff (ga : IPv4Address) (rpt : Option (RPT IPv4Address))
    (spt : List IPv4Address) :
    NewGroup View.init rpt spt ↔
      (GroupConfig.mk ga rpt spt).addresses.Nodup ∧
        (GroupConfig.mk ga rpt spt).prunes.length ≤ 180 := by
  cases rpt with
  | none =>
    apply Iff.intro
    · intro h
      exact ⟨h.nodup, Nat.zero_le _⟩
    · intro h'
      obtain ⟨hnodup, _⟩ := h'
      exact ⟨nofun, hnodup, fun _ _ => List.not_mem_nil⟩
  | some rpt =>
    have hseen : (View.addOptRpt View.init (some rpt)).seen = rpt.rp :: rpt.prunes := by
      rw [View.addOptRpt, addRpt_eq]
      rfl
    have haddresses : (GroupConfig.mk ga (some rpt) spt).addresses.Nodup ↔
        (rpt.rp :: rpt.prunes).Nodup ∧ spt.Nodup ∧ ∀ a ∈ rpt.rp :: rpt.prunes, ∀ b ∈ spt, a ≠ b :=
      List.nodup_append
    apply Iff.intro
    · intro h
      obtain ⟨hnodup, _, hlimit⟩ := h.rptNew rpt rfl
      refine ⟨haddresses.mpr ⟨hnodup, h.nodup, ?_⟩, ?_⟩
      · intro a ha b hb h'
        subst h'
        have hnot := h.fresh a hb
        rw [hseen] at hnot
        exact hnot ha
      · show rpt.prunes.length ≤ 180
        rcases hlimit with hnil | hle
        · rw [hnil]
          exact Nat.zero_le _
        · exact Nat.le_trans (Nat.le_add_left _ _) hle
    · intro h'
      obtain ⟨hnodup, hlimit⟩ := h'
      obtain ⟨hrpt, hspt, hdisjoint⟩ := haddresses.mp hnodup
      refine ⟨?_, hspt, ?_⟩
      · intro r hr
        injection hr with hr
        subst hr
        refine ⟨hrpt, fun _ _ => List.not_mem_nil, Or.inr ?_⟩
        have hzero : View.init.count = 0 := rfl
        rw [hzero, Nat.zero_add]
        exact hlimit
      · intro a ha hin
        rw [hseen] at hin
        exact hdisjoint a hin a ha rfl

theorem build_loadedAs {b : JPGroupConfigBuilder} {d : GroupConfig IPv4Address}
    (h : b.view = d.spt.foldl View.addJoin (View.addOptRpt View.init d.rpt)) :
    LoadedAs d (b.build d.group) := by
  have hview : b.view = { View.addOptRpt View.init d.rpt with
      seen := (View.addOptRpt View.init d.rpt).seen ++ d.spt,
      joins := (View.addOptRpt View.init d.rpt).joins.insertAll d.spt } := by
    rw [h, foldl_addJoin]
  have hrp : b.rp = d.rpt.map (·.rp) := by
    have hfield := congrArg View.rp hview
    cases hrpt : d.rpt with
    | none =>
      rw [hrpt] at hfield
      exact hfield
    | some rpt =>
      rw [hrpt] at hfield
      simp only [View.addOptRpt, addRpt_eq] at hfield
      exact hfield
  have hprunes : ∀ a, a ∈ b.rptPrunedSources.toList ↔ a ∈ d.prunes := by
    intro a
    have hfield := congrArg View.prunes hview
    unfold GroupConfig.prunes
    cases hrpt : d.rpt with
    | none =>
      rw [hrpt] at hfield
      change b.rptPrunedSources = OrdSet.empty at hfield
      rw [hfield]
      exact Iff.rfl
    | some rpt =>
      rw [hrpt] at hfield
      simp only [View.addOptRpt, addRpt_eq] at hfield
      change b.rptPrunedSources = OrdSet.empty.insertAll rpt.prunes at hfield
      rw [hfield, OrdSet.mem_insertAll]
      simp [OrdSet.mem_empty]
  have hjoins : ∀ a, a ∈ b.sgJoinedSources.toList ↔ a ∈ d.spt := by
    intro a
    have hfield := congrArg View.joins hview
    have hstart : (View.addOptRpt View.init d.rpt).joins = OrdSet.empty := by
      cases d.rpt with
      | none => rfl
      | some rpt =>
        rw [View.addOptRpt, addRpt_eq]
        rfl
    change b.sgJoinedSources = _ at hfield
    rw [hfield]
    simp only [hstart, OrdSet.mem_insertAll, OrdSet.mem_empty, false_or]
  have hbuilt : (b.build d.group).prunes = if d.rpt = none then [] else b.rptPrunedSources.toList := by
    unfold GroupConfig.prunes build
    rw [hrp]
    cases d.rpt <;> rfl
  refine ⟨rfl, ?_, ?_, ?_, b.sgJoinedSources.sorted, hjoins⟩
  · unfold build
    rw [hrp]
    cases d.rpt <;> rfl
  · rw [hbuilt]
    split_ifs
    · exact OrdSet.empty.sorted
    · exact b.rptPrunedSources.sorted
  · intro a
    rw [hbuilt]
    split_ifs with hnone
    · simp [GroupConfig.prunes, hnone]
    · exact hprunes a

theorem loadedAs_unique {d g g' : GroupConfig IPv4Address} (h : LoadedAs d g)
    (h' : LoadedAs d g') : g = g' := by
  have hspt : g.spt = g'.spt :=
    (List.sortedLT_iff_pairwise.mp h.spt_sorted).eq_of_mem_iff
      (List.sortedLT_iff_pairwise.mp h'.spt_sorted) fun a => (h.spt a).trans (h'.spt a).symm
  have hprunes : g.prunes = g'.prunes :=
    (List.sortedLT_iff_pairwise.mp h.prunes_sorted).eq_of_mem_iff
      (List.sortedLT_iff_pairwise.mp h'.prunes_sorted)
        fun a => (h.prunes a).trans (h'.prunes a).symm
  have hgroup : g.group = g'.group := h.group.trans h'.group.symm
  have hrp : g.rpt.map (·.rp) = g'.rpt.map (·.rp) := h.rp.trans h'.rp.symm
  obtain ⟨ga, rpt, spt⟩ := g
  obtain ⟨ga', rpt', spt'⟩ := g'
  simp only at hspt hgroup hrp
  subst hspt hgroup
  cases rpt with
  | none =>
    cases rpt' with
    | none => rfl
    | some r' => cases hrp
  | some r =>
    cases rpt' with
    | none => cases hrp
    | some r' =>
      obtain ⟨rp, prunes⟩ := r
      obtain ⟨rp', prunes'⟩ := r'
      simp only [Option.map_some, Option.some.injEq] at hrp
      change prunes = prunes' at hprunes
      rw [hrp, hprunes]

/-- The clean runs on a new builder are those on a described group, and build it. -/
theorem loadGroupConfig_iff (c : ValueContext) (ga : IPv4Address) (line : ℤ)
    (g : GroupConfig IPv4Address) :
    (∃ b', Clean (loadGroupConfig c) (mk' ga line) () b' ∧ b'.build ga = g) ↔
      ∃ d, d.group = ga ∧ DescribesGroup c.node d.rpt d.spt ∧ d.addresses.Nodup ∧
        d.prunes.length ≤ 180 ∧ LoadedAs d g := by
  have hmeets := loadGroupConfig_meets c (mk' ga line)
  have hinit : view (mk' ga line) = View.init := rfl
  rw [hinit] at hmeets
  apply Iff.intro
  · intro h
    obtain ⟨b', hclean, hbuild⟩ := h
    obtain ⟨rpt, spt, hdoc, hnew, hview⟩ := (hmeets _).mp ⟨b', hclean, rfl⟩
    obtain ⟨hnodup, hlimit⟩ := (newGroup_init_iff ga rpt spt).mp hnew
    refine ⟨⟨ga, rpt, spt⟩, rfl, hdoc, hnodup, hlimit, ?_⟩
    have hloaded := build_loadedAs (d := ⟨ga, rpt, spt⟩) hview
    rwa [hbuild] at hloaded
  · intro h
    obtain ⟨d, rfl, hdoc, hnodup, hlimit, hloaded⟩ := h
    have hnew := (newGroup_init_iff d.group d.rpt d.spt).mpr ⟨hnodup, hlimit⟩
    obtain ⟨b', hclean, hview⟩ := (hmeets _).mpr ⟨d.rpt, d.spt, hdoc, hnew, rfl⟩
    exact ⟨b', hclean, loadedAs_unique (build_loadedAs hview) hloaded⟩

end JPGroupConfigBuilder

/-! ### The groups -/

namespace MulticastConfigBuilder

/-- The builders in the map are those of the groups, in their order, and build `gs`. -/
structure Holds (b : MulticastConfigBuilder) (gs : List (GroupConfig IPv4Address)) : Prop where
  groups : b.groups = gs.map (·.group)
  keys : b.groupBldMap.keys = b.groups
  built : ∀ g ∈ gs, ∃ bld, b.groupBldMap.find? g.group = some bld ∧ bld.build g.group = g

theorem holds_init : Holds init [] := ⟨rfl, rfl, by simp⟩

theorem mapM_ok {α β ε : Type} {f : α → Except ε β} {h : β → α} :
    ∀ {bs : List β}, (∀ b ∈ bs, f (h b) = .ok b) → (bs.map h).mapM f = .ok bs := by
  intro bs
  induction bs with
  | nil =>
    intro _
    rfl
  | cons b bs ih =>
    intro hok
    have hhead := hok b List.mem_cons_self
    have htail := ih fun c hc => hok c (List.mem_cons_of_mem b hc)
    rw [List.map_cons, List.mapM_cons, hhead, htail]
    rfl

/-- The exception of `build` is unreachable. -/
theorem build_of_holds {b : MulticastConfigBuilder} {gs : List (GroupConfig IPv4Address)}
    (h : Holds b gs) : b.build = .ok ⟨gs⟩ := by
  have hmap : (gs.map (·.group)).mapM b.buildGroup = .ok gs := by
    apply mapM_ok
    intro g hg
    obtain ⟨bld, hfind, hbuild⟩ := h.built g hg
    unfold buildGroup
    rw [hfind]
    exact congrArg Except.ok hbuild
  unfold build
  rw [h.groups, hmap]
  rfl

theorem holds_added {b : MulticastConfigBuilder} {gs : List (GroupConfig IPv4Address)}
    (h : Holds b gs) {g : GroupConfig IPv4Address} (hnew : g.group ∉ gs.map (·.group))
    (bld : JPGroupConfigBuilder) {bld' : JPGroupConfigBuilder} (hbuild : bld'.build g.group = g) :
    Holds { groups := b.groups ++ [g.group],
            groupBldMap := (b.groupBldMap.tryEmplace g.group bld).1.modify g.group fun _ => bld' }
      (gs ++ [g]) := by
  have hnotin : g.group ∉ b.groupBldMap.keys := by
    rw [h.keys, h.groups]
    exact hnew
  constructor
  · rw [List.map_append, h.groups]
    rfl
  · show ((b.groupBldMap.tryEmplace g.group bld).1.modify g.group fun _ => bld').keys = _
    rw [UnorderedMap.keys_modify, UnorderedMap.keys_tryEmplace, if_neg hnotin, h.keys]
  · intro g' hg'
    show ∃ x, ((b.groupBldMap.tryEmplace g.group bld).1.modify g.group fun _ => bld').find?
      g'.group = some x ∧ _
    rw [UnorderedMap.find?_modify, UnorderedMap.find?_tryEmplace, UnorderedMap.find?_tryEmplace]
    rcases List.mem_append.mp hg' with hold | hlast
    · have hne : g'.group ≠ g.group := by
        intro heq
        exact hnew (heq ▸ List.mem_map_of_mem hold)
      rw [if_neg hne, if_neg hne]
      exact h.built g' hold
    · rw [List.mem_singleton] at hlast
      subst hlast
      rw [if_pos rfl, if_pos rfl]
      exact ⟨bld', rfl, hbuild⟩

theorem mapError_grpAddr_ok {grp : ScalarContext} {ga : IPv4Address} :
    (grpAddr grp.value).mapError grp.error = .ok ga ↔ Multicast grp.value ga := by
  rw [← grpAddr_ok]
  cases grpAddr grp.value with
  | ok a => simp only [Except.mapError, Except.ok.injEq]
  | error e => exact ⟨nofun, nofun⟩

/-- The nodes of an item. -/
def nodes (ii : ValueContext × ValueContext) : Node × Node := (ii.1.node, ii.2.node)

/-- A clean step of the loop is one on a described group that is new, and adds it. -/
theorem loadGroup_iff {b : MulticastConfigBuilder} {gs : List (GroupConfig IPv4Address)}
    (h : Holds b gs) (ii : ValueContext × ValueContext) (b' : MulticastConfigBuilder) :
    Clean (loadGroup ii) b () b' ↔ ∃ grp ga bld', ii.1.getScalar "" = .ok grp ∧
      Multicast grp.value ga ∧ ga ∉ gs.map (·.group) ∧
      Clean (JPGroupConfigBuilder.loadGroupConfig ii.2) (JPGroupConfigBuilder.mk' ga grp.line) ()
        bld' ∧
      b' = { groups := b.groups ++ [ga],
             groupBldMap := (b.groupBldMap.tryEmplace ga
               (JPGroupConfigBuilder.mk' ga grp.line)).1.modify ga fun _ => bld' } := by
  have hkeys : ∀ ga, ga ∉ b.groupBldMap.keys ↔ ga ∉ gs.map (·.group) := by
    intro ga
    rw [h.keys, h.groups]
  have hafter : ∀ grp : ScalarContext, ∀ ga : IPv4Address,
      Clean (do
        let b ← current
        let bld := JPGroupConfigBuilder.mk' ga grp.line
        let bldi := b.groupBldMap.tryEmplace ga bld
        if bldi.2 then
          store { groups := b.groups ++ [ga], groupBldMap := bldi.1 }
          onBuilder ga bld (JPGroupConfigBuilder.loadGroupConfig ii.2)
        else
          let eBld := (b.groupBldMap.find? ga).getD bld
          report (grp.error s!"duplicate group {ga}, previously declared on line {eBld.line}") :
          Load Unit) b () b' ↔ ga ∉ gs.map (·.group) ∧ ∃ bld',
        Clean (JPGroupConfigBuilder.loadGroupConfig ii.2) (JPGroupConfigBuilder.mk' ga grp.line)
          () bld' ∧
        b' = { groups := b.groups ++ [ga],
               groupBldMap := (b.groupBldMap.tryEmplace ga
                 (JPGroupConfigBuilder.mk' ga grp.line)).1.modify ga fun _ => bld' } := by
    intro grp ga
    have hins := UnorderedMap.tryEmplace_snd b.groupBldMap ga (JPGroupConfigBuilder.mk' ga grp.line)
    rw [clean_current_bind]
    simp only
    split_ifs with hnew
    · simp only [clean_bind, clean_store, onBuilder, clean_zoom]
      apply Iff.intro
      · intro h'
        obtain ⟨_, s, rfl, bld', hclean, rfl⟩ := h'
        exact ⟨(hkeys ga).mp (hins.mp hnew), bld', hclean, rfl⟩
      · intro h'
        obtain ⟨_, bld', hclean, rfl⟩ := h'
        exact ⟨(), _, rfl, bld', hclean, rfl⟩
    · apply Iff.intro
      · intro hclean
        exact absurd hclean clean_report
      · intro h'
        obtain ⟨hnot, _⟩ := h'
        exact absurd (hins.mpr ((hkeys ga).mpr hnot)) hnew
  unfold loadGroup
  rw [clean_chk_bind]
  apply Iff.intro
  · intro h'
    obtain ⟨grp, hgrp, hclean⟩ := h'
    obtain ⟨ga, hga, hclean⟩ := clean_chk_bind.mp hclean
    obtain ⟨hnot, bld', hload, hb'⟩ := (hafter grp ga).mp hclean
    exact ⟨grp, ga, bld', hgrp, mapError_grpAddr_ok.mp hga, hnot, hload, hb'⟩
  · intro h'
    obtain ⟨grp, ga, bld', hgrp, hga, hnot, hload, hb'⟩ := h'
    exact ⟨grp, hgrp, clean_chk_bind.mpr ⟨ga, mapError_grpAddr_ok.mpr hga,
      (hafter grp ga).mpr ⟨hnot, bld', hload, hb'⟩⟩⟩

/-- What a clean run of the loop adds are described groups with new and distinct addresses. -/
theorem loadGroups_sound {b b' : MulticastConfigBuilder} {gs : List (GroupConfig IPv4Address)}
    (h : Holds b gs) {items : List (ValueContext × ValueContext)}
    (hgs : (gs.map (·.group)).Nodup) (hclean : Clean (items.forM loadGroup) b () b') :
    ∃ ds gs', List.Forall₂ Describes (items.map nodes) ds ∧ List.Forall₂ LoadedAs ds gs' ∧
      ((gs ++ gs').map (·.group)).Nodup ∧ Holds b' (gs ++ gs') := by
  induction items generalizing b gs with
  | nil =>
    have hsame := clean_forM_nil.mp hclean
    rw [hsame]
    refine ⟨[], [], List.Forall₂.nil, List.Forall₂.nil, ?_, ?_⟩
    · rwa [List.append_nil]
    · rwa [List.append_nil]
  | cons ii items ih =>
    obtain ⟨t, hfirst, hrest⟩ := clean_forM_cons.mp hclean
    obtain ⟨grp, ga, bld, hgrp, hga, hnew, hload, rfl⟩ := (loadGroup_iff h ii t).mp hfirst
    obtain ⟨d, rfl, hdoc, hnodup, hlimit, hloaded⟩ :=
      (JPGroupConfigBuilder.loadGroupConfig_iff ii.2 ga grp.line _).mp ⟨bld, hload, rfl⟩
    obtain ⟨line, value, hnode, rfl⟩ := getScalar_ok.mp hgrp
    have hdescribes : Describes (nodes ii) d :=
      ⟨⟨value, by rw [nodes, hnode]; rfl, hga⟩, hdoc, hnodup, hlimit⟩
    have hholds := holds_added h (g := bld.build d.group) hnew
      (JPGroupConfigBuilder.mk' d.group (ScalarContext.line ⟨ii.1.node, value, ii.1.ctx⟩))
      (rfl : bld.build d.group = bld.build d.group)
    have hgs' : ((gs ++ [bld.build d.group]).map (·.group)).Nodup := by
      rw [List.map_append]
      exact List.nodup_append.mpr ⟨hgs, List.nodup_singleton _, by
        intro a ha b hb h'
        subst h'
        rw [List.map_singleton, List.mem_singleton] at hb
        exact hnew (hb ▸ ha)⟩
    obtain ⟨ds, gs', hds, hloadeds, hall, hholds'⟩ := ih hholds hgs' hrest
    rw [List.append_assoc] at hall hholds'
    exact ⟨d :: ds, bld.build d.group :: gs', List.Forall₂.cons hdescribes hds,
      List.Forall₂.cons hloaded hloadeds, hall, hholds'⟩

/-- Described groups with new and distinct addresses are loaded by a clean run. -/
theorem loadGroups_complete {b : MulticastConfigBuilder} {gs gs' : List (GroupConfig IPv4Address)}
    (h : Holds b gs) {items : List (ValueContext × ValueContext)}
    {ds : List (GroupConfig IPv4Address)} (hds : List.Forall₂ Describes (items.map nodes) ds)
    (hloaded : List.Forall₂ LoadedAs ds gs') (hall : ((gs ++ gs').map (·.group)).Nodup) :
    ∃ b', Clean (items.forM loadGroup) b () b' ∧ Holds b' (gs ++ gs') := by
  induction items generalizing b gs ds gs' with
  | nil =>
    cases hds
    cases hloaded
    refine ⟨b, clean_forM_nil.mpr rfl, ?_⟩
    rwa [List.append_nil]
  | cons ii items ih =>
    cases hds with
    | @cons _ d _ ds hdescribes hds =>
      cases hloaded with
      | @cons _ g _ gs' hg hloaded =>
        obtain ⟨s, hs, hga⟩ := hdescribes.key
        obtain ⟨line, hnode⟩ := Node.str?_eq_some.mp hs
        have hgrp : ii.1.getScalar "" = .ok ⟨ii.1.node, s, ii.1.ctx⟩ :=
          getScalar_ok.mpr ⟨line, s, hnode, rfl⟩
        have hnew : d.group ∉ gs.map (·.group) := by
          intro hin
          rw [List.map_append] at hall
          have hne := (List.nodup_append.mp hall).2.2 _ hin g.group (List.mem_cons_self)
          exact hne hg.group.symm
        obtain ⟨bld, hload, hbuild⟩ :=
          (JPGroupConfigBuilder.loadGroupConfig_iff ii.2 d.group _ g).mpr
            ⟨d, rfl, hdescribes.value, hdescribes.distinct, hdescribes.limit, hg⟩
        have hfirst := (loadGroup_iff h ii _).mpr ⟨_, d.group, bld, hgrp, hga, hnew, hload, rfl⟩
        rw [← hg.group] at hnew hbuild hfirst
        have hholds := holds_added h hnew
          (JPGroupConfigBuilder.mk' g.group (ScalarContext.line ⟨ii.1.node, s, ii.1.ctx⟩)) hbuild
        have hall' : ((gs ++ [g] ++ gs').map (·.group)).Nodup := by
          rw [List.append_assoc]
          exact hall
        obtain ⟨b', hrest, hholds'⟩ := ih hholds hds hloaded hall'
        rw [List.append_assoc] at hholds'
        exact ⟨b', clean_forM_cons.mpr ⟨_, hfirst, hrest⟩, hholds'⟩

end MulticastConfigBuilder

/-! ### The section -/

theorem exists_loadedAs (d : GroupConfig IPv4Address) : ∃ g, LoadedAs d g := by
  have hmem : ∀ as : List IPv4Address, ∀ a,
      a ∈ (OrdSet.empty.insertAll as).toList ↔ a ∈ as := by
    intro as a
    rw [OrdSet.mem_insertAll, or_iff_right (OrdSet.mem_empty a)]
  refine ⟨⟨d.group, d.rpt.map fun r => ⟨r.rp, (OrdSet.empty.insertAll r.prunes).toList⟩,
    (OrdSet.empty.insertAll d.spt).toList⟩, rfl, ?_, ?_, ?_, (OrdSet.insertAll _ _).sorted,
    hmem d.spt⟩
  · cases d.rpt <;> rfl
  · unfold GroupConfig.prunes
    cases d.rpt with
    | none => exact OrdSet.empty.sorted
    | some r => exact (OrdSet.insertAll _ _).sorted
  · unfold GroupConfig.prunes
    cases d.rpt with
    | none => exact fun a => Iff.rfl
    | some r => exact hmem r.prunes

theorem groups_of_loadedAs {ds gs : List (GroupConfig IPv4Address)}
    (h : List.Forall₂ LoadedAs ds gs) : gs.map (·.group) = ds.map (·.group) := by
  induction h with
  | nil => rfl
  | cons hg _ ih => rw [List.map_cons, List.map_cons, hg.group, ih]

theorem items_nodes (m : MappingContext) :
    m.items.map MulticastConfigBuilder.nodes = m.entries := by
  unfold MappingContext.items
  rw [List.map_map]
  exact List.map_id _

theorem clean_loadMulticastConfig {c : ValueContext} {b b' : MulticastConfigBuilder} :
    Clean (MulticastConfigBuilder.loadMulticastConfig c) b () b' ↔
      ∃ m, c.getMapping "IPv4 multicast config" = .ok m ∧ m.entries ≠ [] ∧
        Clean (m.items.forM MulticastConfigBuilder.loadGroup) b () b' := by
  unfold MulticastConfigBuilder.loadMulticastConfig
  rw [clean_chk_bind]
  refine exists_congr fun m => and_congr_right fun _ => ?_
  have hsize : m.size > 0 ↔ m.entries ≠ [] := List.length_pos_iff
  show Clean (if m.size > 0 then _ else _) b () b' ↔ _
  split_ifs with hpos
  · exact (and_iff_right (hsize.mp hpos)).symm
  · apply Iff.intro
    · intro hclean
      exact absurd hclean clean_report
    · intro h
      obtain ⟨hne, _⟩ := h
      exact absurd (hsize.mpr hne) hpos

/-- A configuration is returned when nothing has been reported and the builder makes it. -/
theorem loadJPConfig_returns (c : ValueContext) (cfg : JPConfig IPv4Address) :
    loadJPConfig c = .ok (.ok cfg) ↔
      ∃ b', Clean (MulticastConfigBuilder.loadMulticastConfig c) .init () b' ∧
        b'.build = .ok cfg := by
  have hgiven : loadJPConfig c = .ok (.ok cfg) ↔
      ∃ b', Clean (MulticastConfigBuilder.loadMulticastConfig c) .init () b' ∧
        b'.build.map Except.ok = .ok (.ok cfg) :=
    given_iff_clean (g := fun b : MulticastConfigBuilder => b.build.map Except.ok) (by simp)
  rw [hgiven]
  apply exists_congr
  intro b'
  apply and_congr_right
  intro _
  cases b'.build with
  | error e => exact ⟨nofun, nofun⟩
  | ok cfg' => simp only [Except.map, Except.ok.injEq]

/-- The configuration that is returned is that of the section, with the sources in ascending
order. -/
theorem loadJPConfig_eq_iff (c : ValueContext) (cfg : JPConfig IPv4Address) :
    loadJPConfig c = .ok (.ok cfg) ↔
      ∃ ds, Documented c.node ds ∧ List.Forall₂ LoadedAs ds cfg.groups := by
  rw [loadJPConfig_returns]
  apply Iff.intro
  · intro h'
    obtain ⟨b', hclean, hbuild⟩ := h'
    obtain ⟨m, hm, hne, hgroups⟩ := clean_loadMulticastConfig.mp hclean
    obtain ⟨line, entries, hnode, rfl⟩ := getMapping_ok.mp hm
    obtain ⟨ds, gs, hds, hloaded, hnodup, hholds⟩ :=
      MulticastConfigBuilder.loadGroups_sound MulticastConfigBuilder.holds_init List.nodup_nil
        hgroups
    rw [items_nodes] at hds
    rw [List.nil_append] at hnodup hholds
    have hcfg := MulticastConfigBuilder.build_of_holds hholds
    rw [hbuild] at hcfg
    injection hcfg with hcfg
    rw [groups_of_loadedAs hloaded] at hnodup
    refine ⟨ds, ⟨line, entries, hnode, hne, hds, hnodup⟩, ?_⟩
    rw [hcfg]
    exact hloaded
  · intro h'
    obtain ⟨ds, ⟨line, entries, hnode, hne, hds, hnodup⟩, hloaded⟩ := h'
    have hm : c.getMapping "IPv4 multicast config" =
        .ok ⟨"IPv4 multicast config", c.node, entries, c.ctx, UnorderedSet.empty⟩ :=
      getMapping_ok.mpr ⟨line, entries, hnode, rfl⟩
    have hall : (([] ++ cfg.groups : List (GroupConfig IPv4Address)).map (·.group)).Nodup := by
      rw [List.nil_append, groups_of_loadedAs hloaded]
      exact hnodup
    have hitems : List.Forall₂ Describes ((MappingContext.items ⟨"IPv4 multicast config", c.node,
        entries, c.ctx, UnorderedSet.empty⟩).map MulticastConfigBuilder.nodes) ds := by
      rw [items_nodes]
      exact hds
    obtain ⟨b', hclean, hholds⟩ :=
      MulticastConfigBuilder.loadGroups_complete MulticastConfigBuilder.holds_init hitems hloaded
        hall
    exact ⟨b', clean_loadMulticastConfig.mpr ⟨_, hm, hne, hclean⟩,
      MulticastConfigBuilder.build_of_holds hholds⟩

theorem loadJPConfig_exact (c : ValueContext) :
    ((∃ cfg, loadJPConfig c = .ok (.ok cfg)) ↔ ∃ ds, Documented c.node ds) ∧
      ∀ ds cfg, Documented c.node ds →
        (loadJPConfig c = .ok (.ok cfg) ↔ List.Forall₂ LoadedAs ds cfg.groups) := by
  have hloads : ∀ ds, Documented c.node ds → ∃ cfg, List.Forall₂ LoadedAs ds cfg.groups ∧
      loadJPConfig c = .ok (.ok cfg) := by
    intro ds hdoc
    choose load hload using exists_loadedAs
    have hall : List.Forall₂ LoadedAs ds (ds.map load) :=
      List.forall₂_map_right_iff.mpr (List.forall₂_same.mpr fun d _ => hload d)
    exact ⟨⟨ds.map load⟩, hall, (loadJPConfig_eq_iff c ⟨ds.map load⟩).mpr ⟨ds, hdoc, hall⟩⟩
  constructor
  · apply Iff.intro
    · intro h
      obtain ⟨cfg, hcfg⟩ := h
      obtain ⟨ds, hdoc, _⟩ := (loadJPConfig_eq_iff c cfg).mp hcfg
      exact ⟨ds, hdoc⟩
    · intro h
      obtain ⟨ds, hdoc⟩ := h
      obtain ⟨cfg, _, hcfg⟩ := hloads ds hdoc
      exact ⟨cfg, hcfg⟩
  · intro ds cfg hdoc
    apply Iff.intro
    · intro hcfg
      obtain ⟨cfg', hall, hcfg'⟩ := hloads ds hdoc
      rw [hcfg] at hcfg'
      injection hcfg' with hcfg'
      injection hcfg' with hcfg'
      rw [hcfg']
      exact hall
    · intro hall
      exact (loadJPConfig_eq_iff c cfg).mpr ⟨ds, hdoc, hall⟩

/-- A group with an RP, two pruned sources in descending order and a joined source. -/
def sampleSection : Node :=
  .map 0 [(.scalar 1 "239.1.2.3", .map 2 [
    (.scalar 2 "Join*", .map 3 [
      (.scalar 3 "RP", .scalar 3 "10.0.0.1"),
      (.scalar 4 "Prune", .sequence 4 [.scalar 4 "10.1.2.4", .scalar 4 "10.1.2.3"])]),
    (.scalar 5 "Join", .sequence 5 [.scalar 5 "10.5.5.5"])])]

theorem nodeUnicast_of {line : ℤ} {s : String} {a : IPv4Address}
    (h : ucAddr s .Source = .ok a) : NodeUnicast (.scalar line s) a :=
  ⟨s, rfl, ucAddr_ok.mp h⟩

def sampleRpt : RPT IPv4Address :=
  ⟨.ofOctets 10 0 0 1, [.ofOctets 10 1 2 4, .ofOctets 10 1 2 3]⟩

theorem sampleSection_documented : Documented sampleSection
    [⟨.ofOctets 239 1 2 3, some sampleRpt, [.ofOctets 10 5 5 5]⟩] := by
  have hprunes : List.Forall₂ NodeUnicast [.scalar 4 "10.1.2.4", .scalar 4 "10.1.2.3"]
      sampleRpt.prunes :=
    List.Forall₂.cons (nodeUnicast_of rfl) (List.Forall₂.cons (nodeUnicast_of rfl) List.Forall₂.nil)
  have hjoins : List.Forall₂ NodeUnicast [.scalar 5 "10.5.5.5"] [.ofOctets 10 5 5 5] :=
    List.Forall₂.cons (nodeUnicast_of rfl) List.Forall₂.nil
  have hrpt : DescribesRpt (.map 3 [
      (.scalar 3 "RP", .scalar 3 "10.0.0.1"),
      (.scalar 4 "Prune", .sequence 4 [.scalar 4 "10.1.2.4", .scalar 4 "10.1.2.3"])]) sampleRpt :=
    ⟨3, _, rfl, ⟨["RP", "Prune"], rfl, by decide, fun _ h => h⟩,
      ⟨_, ⟨_, rfl, List.Mem.head _⟩, nodeUnicast_of rfl⟩,
      Or.inr ⟨4, _, ⟨_, rfl, List.Mem.tail _ (List.Mem.head _)⟩, hprunes⟩⟩
  refine ⟨0, _, rfl, List.cons_ne_nil _ _, List.Forall₂.cons ?_ List.Forall₂.nil,
    List.nodup_singleton _⟩
  refine ⟨⟨_, rfl, grpAddr_ok.mp rfl⟩, ⟨2, _, rfl,
    ⟨["Join*", "Join"], rfl, by decide, fun _ h => h⟩, ?_, ?_, ?_⟩, by decide, by decide⟩
  · exact ⟨_, Or.inl ⟨_, rfl, List.Mem.head _⟩⟩
  · exact Or.inr ⟨_, _, rfl, ⟨_, rfl, List.Mem.head _⟩, hrpt⟩
  · exact Or.inr ⟨5, _, ⟨_, rfl, List.Mem.tail _ (List.Mem.head _)⟩, hjoins⟩

def sampleConfig : JPConfig IPv4Address :=
  ⟨[⟨.ofOctets 239 1 2 3, some ⟨.ofOctets 10 0 0 1, [.ofOctets 10 1 2 3, .ofOctets 10 1 2 4]⟩,
    [.ofOctets 10 5 5 5]⟩]⟩

theorem sampleSection_loadedAs : List.Forall₂ LoadedAs
    [⟨.ofOctets 239 1 2 3, some sampleRpt, [.ofOctets 10 5 5 5]⟩] sampleConfig.groups := by
  refine List.Forall₂.cons ⟨rfl, rfl, by decide, ?_, by decide, fun _ => Iff.rfl⟩ List.Forall₂.nil
  intro a
  show a ∈ [_, _] ↔ a ∈ [_, _]
  simp only [List.mem_cons, List.not_mem_nil, or_false]
  exact or_comm

theorem loadJPConfig_exact_example :
    loadJPConfig (.root sampleSection) = .ok (.ok sampleConfig) :=
  ((loadJPConfig_exact (.root sampleSection)).2 _ sampleConfig sampleSection_documented).mpr
    sampleSection_loadedAs

end Pimc
