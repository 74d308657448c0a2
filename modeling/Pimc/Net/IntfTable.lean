import Mathlib.Data.List.Sort
import Mathlib.Tactic.SplitIfs
import Pimc.Formatters.IPv4Formatters
import Pimc.Lib.Containers

/-!
# The interface table (lib/pimc/net/IntfTable.hpp, IntfTable.cpp)

What `getifaddrs` and `if_nametoindex` of the host report is given. The map by
name points into the map by index.
-/

namespace Pimc

open Lib

structure IntfInfo where
  name : String
  ifindex : BitVec 32
  ipv4addr : Option IPv4Address
  deriving DecidableEq, Repr

/-- An entry of `getifaddrs` and its address, which is `none` if it is not an IPv4 address. -/
structure IfAddr where
  name : String
  addr : Option (Option IPv4Address)
  deriving DecidableEq, Repr

structure IntfTable where
  indexMap : UnorderedMap (BitVec 32) IntfInfo
  nameMap : UnorderedMap String (BitVec 32)

namespace IntfTable

inductive TableError where
  | fail (msg : String)
  | raise (msg : String)
  deriving DecidableEq, Repr

def byIndex (t : IntfTable) (ifindex : BitVec 32) : Option IntfInfo := t.indexMap.find? ifindex

def byName (t : IntfTable) (name : String) : Option IntfInfo :=
  (t.nameMap.find? name).bind t.byIndex

/-- The infos in the order of `forEach`. -/
def infos (t : IntfTable) : List IntfInfo :=
  (t.indexMap.entries.mergeSort fun a b => a.1.toNat ≤ b.1.toNat).map Prod.snd

def empty : IntfTable := ⟨UnorderedMap.empty, UnorderedMap.empty⟩

/-- The body of the loop for an entry with an address. -/
def addAddr (name : String) (ifindex : BitVec 32) (ipv4addr : Option IPv4Address)
    (t : IntfTable) : Except TableError IntfTable :=
  let idxInsOp := t.indexMap.tryEmplace ifindex ⟨name, ifindex, ipv4addr⟩
  if idxInsOp.2 then
    .ok ⟨idxInsOp.1, (t.nameMap.tryEmplace name ifindex).1⟩
  else
    let intfInfo := (t.indexMap.find? ifindex).getD ⟨name, ifindex, ipv4addr⟩
    if intfInfo.name ≠ name then
      .error (.raise s!"intf #{ifindex.toNat}, previously seen name '{intfInfo.name}' != currently seen name '{name}'")
    else
      .ok { t with
        indexMap := t.indexMap.modify ifindex fun info =>
          { info with ipv4addr := ipv4addr.or info.ipv4addr } }

def addEntry (ifNameToIndex : String → BitVec 32) (t : IntfTable) (p : IfAddr) :
    Except TableError IntfTable :=
  match p.addr with
  | none => .ok t
  | some ipv4addr =>
    let ifindex := ifNameToIndex p.name
    if ifindex = 0 then .error (.fail s!"unable to resolve interface name '{p.name}' to index")
    else t.addAddr p.name ifindex ipv4addr

def newTable (ifaddrList : Except String (List IfAddr)) (ifNameToIndex : String → BitVec 32) :
    Except TableError IntfTable :=
  match ifaddrList with
  | .error e => .error (.fail s!"getifaddrs() failed: {e}")
  | .ok ps => do
    let t ← ps.foldlM (addEntry ifNameToIndex) empty
    if t.indexMap.entries = [] then .error (.fail "interface table is empty") else .ok t

/-! ### Printing (lib/pimc/formatters/IntfTableFormatter.hpp) -/

/-- `{:<w}` -/
def padRight (w : ℕ) (s : String) : String := s ++ String.ofList (List.replicate (w - s.length) ' ')

structure Widths where
  index : ℕ
  intfName : ℕ
  addr : ℕ

/-- The width of the index column follows that of the name column. -/
def Widths.widen (w : Widths) (info : IntfInfo) : Widths :=
  match info.ipv4addr with
  | none => w
  | some a =>
    { index := max w.intfName (toString info.ifindex.toNat).length
      intfName := max info.name.length w.intfName
      addr := max (toString a).length w.addr }

def Widths.row (w : Widths) (indent : ℕ) (index name : String) : String :=
  String.ofList (List.replicate indent ' ') ++ padRight w.index index ++ " " ++
    padRight w.intfName name ++ " "

/-- `formatIntfTable` without the end of the last line. -/
def format (t : IntfTable) (indent : ℕ) : String :=
  let w := t.infos.foldl Widths.widen ⟨5, 9, 12⟩
  let sep := fun n => String.ofList (List.replicate n '=')
  w.row indent "Index" "Interface" ++ padRight w.addr "IPv4 Address" ++ "\n" ++
    w.row indent (sep w.index) (sep w.intfName) ++ sep w.addr ++
    String.join (t.infos.map fun info =>
      match info.ipv4addr with
      | none => ""
      | some a => "\n" ++ w.row indent (toString info.ifindex.toNat) info.name ++ toString a)

/-! ### What the table says -/

variable {ifNameToIndex : String → BitVec 32}

/-- The entries with an address of the interface with the index `i`. -/
def ownAddrs (ifNameToIndex : String → BitVec 32) (ps : List IfAddr) (i : BitVec 32) :
    List IfAddr :=
  ps.filter fun p => p.addr.isSome && ifNameToIndex p.name == i

/-- The interface with the index `i`: its name, and the last of its IPv4 addresses. -/
def intfOf (ifNameToIndex : String → BitVec 32) (ps : List IfAddr) (i : BitVec 32) :
    Option IntfInfo :=
  (ownAddrs ifNameToIndex ps i).head?.map fun p =>
    ⟨p.name, i, ((ownAddrs ifNameToIndex ps i).filterMap fun p => p.addr.join).getLast?⟩

/-- All addresses have an interface, and an interface has one name. -/
structure Consistent (ifNameToIndex : String → BitVec 32) (ps : List IfAddr) : Prop where
  resolved : ∀ p ∈ ps, p.addr.isSome = true → ifNameToIndex p.name ≠ 0
  names : ∀ p ∈ ps, ∀ q ∈ ps, p.addr.isSome = true → q.addr.isSome = true →
    ifNameToIndex p.name = ifNameToIndex q.name → p.name = q.name

/-- The table after the entries `ps`. -/
structure TableOf (ifNameToIndex : String → BitVec 32) (ps : List IfAddr) (t : IntfTable) :
    Prop where
  consistent : Consistent ifNameToIndex ps
  byIndex_eq : ∀ i, t.indexMap.find? i = intfOf ifNameToIndex ps i
  nameMap_eq : ∀ name, t.nameMap.find? name =
    if ∃ p ∈ ps, p.addr.isSome = true ∧ p.name = name then some (ifNameToIndex name) else none

section Snoc

variable {ps : List IfAddr} {p : IfAddr} {a : Option IPv4Address} {i : BitVec 32}

theorem ownAddrs_snoc (hp : p.addr = some a) : ownAddrs ifNameToIndex (ps ++ [p]) i =
    if ifNameToIndex p.name = i then ownAddrs ifNameToIndex ps i ++ [p]
    else ownAddrs ifNameToIndex ps i := by
  unfold ownAddrs
  rw [List.filter_append]
  split_ifs with hi
  · simp [hp, hi]
  · simp [hp, hi]

theorem ownAddrs_null (hp : p.addr = none) :
    ownAddrs ifNameToIndex (ps ++ [p]) i = ownAddrs ifNameToIndex ps i := by
  unfold ownAddrs
  rw [List.filter_append]
  simp [hp]

theorem mem_ownAddrs : p ∈ ownAddrs ifNameToIndex ps i ↔
    p ∈ ps ∧ p.addr.isSome = true ∧ ifNameToIndex p.name = i := by
  simp [ownAddrs]

theorem intfOf_eq_none : intfOf ifNameToIndex ps i = none ↔ ownAddrs ifNameToIndex ps i = [] := by
  simp [intfOf]

/-- The first address of an interface enters it, the next ones add their IPv4 address. -/
theorem intfOf_snoc (hp : p.addr = some a) : intfOf ifNameToIndex (ps ++ [p]) i =
    if ifNameToIndex p.name = i then
      match intfOf ifNameToIndex ps i with
      | none => some ⟨p.name, i, a⟩
      | some info => some { info with ipv4addr := a.or info.ipv4addr }
    else intfOf ifNameToIndex ps i := by
  unfold intfOf
  rw [ownAddrs_snoc hp]
  split_ifs with hi
  · cases hown : ownAddrs ifNameToIndex ps i with
    | nil => cases a <;> simp [hp]
    | cons q qs => cases a <;> simp [hp]
  · rfl

end Snoc

/-! ### The loop -/

theorem tableOf_empty : TableOf ifNameToIndex [] empty :=
  ⟨⟨by simp, by simp⟩, fun _ => rfl, fun _ => by simp [empty, UnorderedMap.find?_empty]⟩

section Step

variable {seen : List IfAddr} {t : IntfTable} {p : IfAddr} {a : Option IPv4Address}

theorem Consistent.snoc_iff (hp : p.addr = some a) :
    Consistent ifNameToIndex (seen ++ [p]) ↔ Consistent ifNameToIndex seen ∧
      ifNameToIndex p.name ≠ 0 ∧
      ∀ q ∈ ownAddrs ifNameToIndex seen (ifNameToIndex p.name), q.name = p.name := by
  constructor
  · intro h
    refine ⟨⟨fun q hq => h.resolved q (List.mem_append_left _ hq), fun q hq r hr =>
      h.names q (List.mem_append_left _ hq) r (List.mem_append_left _ hr)⟩,
      h.resolved p (by simp) (by simp [hp]), fun q hq => ?_⟩
    obtain ⟨hin, hsome, hidx⟩ := mem_ownAddrs.mp hq
    exact h.names q (List.mem_append_left _ hin) p (by simp) hsome (by simp [hp]) hidx
  · intro h'
    obtain ⟨h, hne, hnames⟩ := h'
    refine ⟨fun q hq hsome => ?_, fun q hq r hr hqs hrs heq => ?_⟩
    · rcases List.mem_append.mp hq with hq | hq
      · exact h.resolved q hq hsome
      · rw [List.mem_singleton.mp hq]
        exact hne
    · rcases List.mem_append.mp hq with hq | hq <;> rcases List.mem_append.mp hr with hr | hr
      · exact h.names q hq r hr hqs hrs heq
      · rw [List.mem_singleton.mp hr] at heq ⊢
        exact hnames q (mem_ownAddrs.mpr ⟨hq, hqs, heq⟩)
      · rw [List.mem_singleton.mp hq] at heq ⊢
        exact (hnames r (mem_ownAddrs.mpr ⟨hr, hrs, heq.symm⟩)).symm
      · rw [List.mem_singleton.mp hq, List.mem_singleton.mp hr]

/-- The addresses of an interface that is seen have its name. -/
theorem Consistent.name_eq (h : Consistent ifNameToIndex seen) {i : BitVec 32} {info : IntfInfo}
    (hinfo : intfOf ifNameToIndex seen i = some info) :
    ∀ q ∈ ownAddrs ifNameToIndex seen i, q.name = info.name := by
  unfold intfOf at hinfo
  obtain ⟨r, hr, rfl⟩ := Option.map_eq_some_iff.mp hinfo
  obtain ⟨hrin, hrsome, hridx⟩ := mem_ownAddrs.mp (List.mem_of_head? hr)
  intro q hq
  obtain ⟨hqin, hqsome, hqidx⟩ := mem_ownAddrs.mp hq
  exact h.names q hqin r hrin hqsome hrsome (hqidx.trans hridx.symm)

theorem addAddr_new (h : TableOf ifNameToIndex seen t) (hp : p.addr = some a)
    (hne : ifNameToIndex p.name ≠ 0)
    (hnew : intfOf ifNameToIndex seen (ifNameToIndex p.name) = none) :
    ∃ t', t.addAddr p.name (ifNameToIndex p.name) a = .ok t' ∧
      TableOf ifNameToIndex (seen ++ [p]) t' := by
  have hkey : ifNameToIndex p.name ∉ t.indexMap.keys := by
    rw [← UnorderedMap.find?_eq_none, h.byIndex_eq, hnew]
  have hown := intfOf_eq_none.mp hnew
  have hunseen : ¬∃ q ∈ seen, q.addr.isSome = true ∧ q.name = p.name := by
    rintro ⟨q, hq, hsome, hname⟩
    have hin := mem_ownAddrs.mpr ⟨hq, hsome, congrArg ifNameToIndex hname⟩
    rw [hown] at hin
    cases hin
  refine ⟨_, by rw [addAddr, if_pos ((UnorderedMap.tryEmplace_snd _ _ _).mpr hkey)], ?_, ?_, ?_⟩
  · rw [Consistent.snoc_iff hp, hown]
    exact ⟨h.consistent, hne, by simp⟩
  · intro i
    rw [UnorderedMap.find?_tryEmplace, intfOf_snoc hp, h.byIndex_eq, h.byIndex_eq, hnew]
    by_cases hi : i = ifNameToIndex p.name
    · rw [if_pos hi, if_pos hi.symm, hi, hnew]
      rfl
    · rw [if_neg hi, if_neg (Ne.symm hi)]
  · intro name
    rw [UnorderedMap.find?_tryEmplace, h.nameMap_eq, h.nameMap_eq, if_neg hunseen]
    by_cases hname : name = p.name
    · rw [if_pos hname, if_pos ⟨p, by simp, by simp [hp], hname.symm⟩, hname]
      rfl
    · rw [if_neg hname]
      refine if_congr ?_ rfl rfl
      constructor
      · rintro ⟨q, hq, hsome, hqname⟩
        exact ⟨q, List.mem_append_left _ hq, hsome, hqname⟩
      · rintro ⟨q, hq, hsome, hqname⟩
        rcases List.mem_append.mp hq with hq | hq
        · exact ⟨q, hq, hsome, hqname⟩
        · rw [List.mem_singleton.mp hq] at hqname
          exact absurd hqname.symm hname

theorem addAddr_seen (h : TableOf ifNameToIndex seen t) (hp : p.addr = some a)
    (hne : ifNameToIndex p.name ≠ 0) {info : IntfInfo}
    (hinfo : intfOf ifNameToIndex seen (ifNameToIndex p.name) = some info)
    (hname : info.name = p.name) :
    ∃ t', t.addAddr p.name (ifNameToIndex p.name) a = .ok t' ∧
      TableOf ifNameToIndex (seen ++ [p]) t' := by
  have hfind : t.indexMap.find? (ifNameToIndex p.name) = some info := (h.byIndex_eq _).trans hinfo
  have hkey : ¬(t.indexMap.tryEmplace (ifNameToIndex p.name)
      ⟨p.name, ifNameToIndex p.name, a⟩).2 = true := by
    rw [UnorderedMap.tryEmplace_snd, UnorderedMap.mem_keys]
    exact not_not_intro ⟨info, hfind⟩
  have hseen : ∃ q ∈ seen, q.addr.isSome = true ∧ q.name = p.name := by
    have hown : ownAddrs ifNameToIndex seen (ifNameToIndex p.name) ≠ [] := by
      rw [ne_eq, ← intfOf_eq_none, hinfo]
      simp
    obtain ⟨q, hq⟩ := List.exists_mem_of_ne_nil _ hown
    obtain ⟨hqin, hqsome, _⟩ := mem_ownAddrs.mp hq
    exact ⟨q, hqin, hqsome, (h.consistent.name_eq hinfo q hq).trans hname⟩
  refine ⟨_, by
    rw [addAddr, if_neg hkey, hfind]
    exact if_neg (not_not_intro hname), ?_, ?_, ?_⟩
  · rw [Consistent.snoc_iff hp]
    exact ⟨h.consistent, hne, fun q hq => (h.consistent.name_eq hinfo q hq).trans hname⟩
  · intro i
    rw [UnorderedMap.find?_modify, intfOf_snoc hp, hfind, h.byIndex_eq]
    by_cases hi : i = ifNameToIndex p.name
    · rw [if_pos hi, if_pos hi.symm, hi, hinfo]
      rfl
    · rw [if_neg hi, if_neg (Ne.symm hi)]
  · intro name
    rw [h.nameMap_eq]
    refine if_congr ?_ rfl rfl
    constructor
    · rintro ⟨q, hq, hsome, hqname⟩
      exact ⟨q, List.mem_append_left _ hq, hsome, hqname⟩
    · rintro ⟨q, hq, hsome, hqname⟩
      rcases List.mem_append.mp hq with hq | hq
      · exact ⟨q, hq, hsome, hqname⟩
      · rw [List.mem_singleton.mp hq] at hqname
        rw [← hqname]
        exact hseen

theorem addEntry_null (h : TableOf ifNameToIndex seen t) (hp : p.addr = none) :
    TableOf ifNameToIndex (seen ++ [p]) t := by
  have hmem : ∀ q ∈ seen ++ [p], q.addr.isSome = true → q ∈ seen := by
    intro q hq hsome
    rcases List.mem_append.mp hq with hq | hq
    · exact hq
    · rw [List.mem_singleton.mp hq, hp] at hsome
      cases hsome
  refine ⟨⟨fun q hq hs => h.consistent.resolved q (hmem q hq hs) hs, fun q hq r hr hqs hrs =>
    h.consistent.names q (hmem q hq hqs) r (hmem r hr hrs) hqs hrs⟩, fun i => ?_, fun name => ?_⟩
  · rw [h.byIndex_eq]
    unfold intfOf
    rw [ownAddrs_null hp]
  · rw [h.nameMap_eq]
    refine if_congr ?_ rfl rfl
    constructor
    · rintro ⟨q, hq, hsome, hqname⟩
      exact ⟨q, List.mem_append_left _ hq, hsome, hqname⟩
    · rintro ⟨q, hq, hsome, hqname⟩
      exact ⟨q, hmem q hq hsome, hsome, hqname⟩

/-- One entry: it is accepted if the entries so far are consistent with it. -/
theorem addEntry_spec (h : TableOf ifNameToIndex seen t) (p : IfAddr) :
    (∃ t', addEntry ifNameToIndex t p = .ok t' ∧ TableOf ifNameToIndex (seen ++ [p]) t') ∨
    (∃ e, addEntry ifNameToIndex t p = .error e) ∧ ¬Consistent ifNameToIndex (seen ++ [p]) := by
  unfold addEntry
  cases hp : p.addr with
  | none => exact Or.inl ⟨t, rfl, addEntry_null h hp⟩
  | some a =>
    dsimp only
    by_cases hzero : ifNameToIndex p.name = 0
    · rw [if_pos hzero]
      exact Or.inr ⟨⟨_, rfl⟩, fun hc => hc.resolved p (by simp) (by simp [hp]) hzero⟩
    · rw [if_neg hzero]
      cases hinfo : intfOf ifNameToIndex seen (ifNameToIndex p.name) with
      | none => exact Or.inl (addAddr_new h hp hzero hinfo)
      | some info =>
        by_cases hname : info.name = p.name
        · exact Or.inl (addAddr_seen h hp hzero hinfo hname)
        · refine Or.inr ⟨?_, fun hc => ?_⟩
          · have hfind : t.indexMap.find? (ifNameToIndex p.name) = some info :=
              (h.byIndex_eq _).trans hinfo
            have hkey : ¬(t.indexMap.tryEmplace (ifNameToIndex p.name)
                ⟨p.name, ifNameToIndex p.name, a⟩).2 = true := by
              rw [UnorderedMap.tryEmplace_snd, UnorderedMap.mem_keys]
              exact not_not_intro ⟨info, hfind⟩
            exact ⟨_, by
              rw [addAddr, if_neg hkey, hfind]
              exact if_pos hname⟩
          · have hown : ownAddrs ifNameToIndex seen (ifNameToIndex p.name) ≠ [] := by
              rw [ne_eq, ← intfOf_eq_none, hinfo]
              simp
            obtain ⟨q, hq⟩ := List.exists_mem_of_ne_nil _ hown
            obtain ⟨_, _, hnames⟩ := (Consistent.snoc_iff hp).mp hc
            exact hname ((h.consistent.name_eq hinfo q hq).symm.trans (hnames q hq))

end Step

theorem Consistent.of_append {ps qs : List IfAddr} (h : Consistent ifNameToIndex (ps ++ qs)) :
    Consistent ifNameToIndex ps :=
  ⟨fun p hp => h.resolved p (List.mem_append_left _ hp), fun p hp q hq =>
    h.names p (List.mem_append_left _ hp) q (List.mem_append_left _ hq)⟩

/-- The whole loop. -/
theorem addEntries_spec (ps : List IfAddr) {seen : List IfAddr} {t : IntfTable}
    (h : TableOf ifNameToIndex seen t) :
    (∃ t', ps.foldlM (addEntry ifNameToIndex) t = .ok t' ∧
      TableOf ifNameToIndex (seen ++ ps) t') ∨
    (∃ e, ps.foldlM (addEntry ifNameToIndex) t = .error e) ∧
      ¬Consistent ifNameToIndex (seen ++ ps) := by
  induction ps generalizing seen t with
  | nil => exact Or.inl ⟨t, rfl, by rwa [List.append_nil]⟩
  | cons p ps ih =>
    rw [List.foldlM_cons, List.append_cons]
    rcases addEntry_spec h p with ⟨t', hok, ht'⟩ | ⟨⟨e, herror⟩, hno⟩
    · rw [hok]
      exact ih ht'
    · rw [herror]
      exact Or.inr ⟨⟨e, rfl⟩, fun hc => hno hc.of_append⟩

theorem entries_eq_nil_iff {ps : List IfAddr} {t : IntfTable} (h : TableOf ifNameToIndex ps t) :
    t.indexMap.entries = [] ↔ ∀ p ∈ ps, p.addr.isSome = false := by
  constructor
  · intro hnil p hp
    rw [← Bool.not_eq_true]
    intro hsome
    have hin : p ∈ ownAddrs ifNameToIndex ps (ifNameToIndex p.name) :=
      mem_ownAddrs.mpr ⟨hp, hsome, rfl⟩
    have hnone : intfOf ifNameToIndex ps (ifNameToIndex p.name) = none := by
      rw [← h.byIndex_eq]
      unfold UnorderedMap.find?
      rw [hnil]
      rfl
    rw [intfOf_eq_none.mp hnone] at hin
    cases hin
  · intro hall
    rw [List.eq_nil_iff_forall_not_mem]
    rintro ⟨i, info⟩ hin
    have hsome := UnorderedMap.find?_eq_some.mpr hin
    rw [h.byIndex_eq] at hsome
    unfold intfOf at hsome
    obtain ⟨p, hp, _⟩ := Option.map_eq_some_iff.mp hsome
    obtain ⟨hpin, hpsome, _⟩ := mem_ownAddrs.mp (List.mem_of_head? hp)
    rw [hall p hpin] at hpsome
    cases hpsome

/-- A table is built if and only if each interface has an index and one name, and there is one; it
then gives each interface, by index and by name, with the last of its IPv4 addresses. -/
theorem newTable_exact (ps : List IfAddr) (ifNameToIndex : String → BitVec 32) :
    ((∃ t, newTable (.ok ps) ifNameToIndex = .ok t) ↔
      Consistent ifNameToIndex ps ∧ ∃ p ∈ ps, p.addr.isSome = true) ∧
    ∀ t, newTable (.ok ps) ifNameToIndex = .ok t →
      (∀ i, t.byIndex i = intfOf ifNameToIndex ps i) ∧
      ∀ name, t.byName name = if ∃ p ∈ ps, p.addr.isSome = true ∧ p.name = name then
        intfOf ifNameToIndex ps (ifNameToIndex name) else none := by
  rcases addEntries_spec ps (@tableOf_empty ifNameToIndex) with ⟨t', hok, ht'⟩ | ⟨⟨e, herror⟩, hno⟩
  · rw [List.nil_append] at ht'
    have htable : newTable (.ok ps) ifNameToIndex =
        if t'.indexMap.entries = [] then .error (.fail "interface table is empty") else .ok t' := by
      show (ps.foldlM (addEntry ifNameToIndex) empty >>= _) = _
      rw [hok]
      rfl
    rw [htable]
    constructor
    · constructor
      · rintro ⟨t, ht⟩
        refine ⟨ht'.consistent, ?_⟩
        by_contra hnone
        rw [if_pos ((entries_eq_nil_iff ht').mpr fun p hp => ?_)] at ht
        · cases ht
        · rw [← Bool.not_eq_true]
          exact fun hsome => hnone ⟨p, hp, hsome⟩
      · rintro ⟨_, p, hp, hsome⟩
        refine ⟨t', if_neg fun hnil => ?_⟩
        rw [(entries_eq_nil_iff ht').mp hnil p hp] at hsome
        cases hsome
    · intro t ht
      split_ifs at ht
      cases ht
      refine ⟨ht'.byIndex_eq, fun name => ?_⟩
      unfold byName
      rw [ht'.nameMap_eq]
      split_ifs
      · exact ht'.byIndex_eq _
      · rfl
  · rw [List.nil_append] at hno
    have htable : newTable (.ok ps) ifNameToIndex = .error e := by
      show (ps.foldlM (addEntry ifNameToIndex) empty >>= _) = _
      rw [herror]
      rfl
    rw [htable]
    refine ⟨⟨?_, fun h => absurd h.1 hno⟩, ?_⟩
    · rintro ⟨t, ht⟩
      cases ht
    · intro t ht
      cases ht

/-- A packet socket address, two IPv4 addresses and an interface that is down. -/
def sampleAddrs : List IfAddr :=
  [⟨"eth0", some none⟩, ⟨"eth0", some (some (.ofOctets 10 0 0 1))⟩, ⟨"eth1", none⟩,
    ⟨"eth0", some (some (.ofOctets 10 0 0 9))⟩]

theorem newTable_exact_example : ∃ t, newTable (.ok sampleAddrs) (fun _ => 2) = .ok t ∧
    t.byName "eth0" = some ⟨"eth0", 2, some (.ofOctets 10 0 0 9)⟩ ∧ t.byName "eth1" = none := by
  have h := newTable_exact sampleAddrs fun _ => 2
  have hconsistent : Consistent (fun _ => 2) sampleAddrs := ⟨by decide, by decide⟩
  obtain ⟨t, ht⟩ := h.1.mpr ⟨hconsistent, by decide⟩
  have hname := (h.2 t ht).2
  refine ⟨t, ht, ?_, ?_⟩
  · rw [hname, if_pos (by decide)]
    decide
  · rw [hname, if_neg (by decide)]

end IntfTable

end Pimc
