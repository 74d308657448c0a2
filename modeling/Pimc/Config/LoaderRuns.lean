import Pimc.Config.MulticastConfigLoader

/-!
# Clean runs of the group config builder

What a clean run does to a builder shows in its `View`: the addresses seen so
far, the counter of the pruned sources, and what was accepted.
-/

namespace Pimc

open Lib Logged Yaml

/-! ### Addresses -/

/-- `s` is the notation of an address that an RP or a source may have. -/
structure Unicast (s : String) (a : IPv4Address) : Prop where
  dotted : Dotted s a
  not_default : a ≠ ⟨0⟩
  not_broadcast : a ≠ ⟨0xFFFFFFFF⟩
  not_loopback : a.isLoopback = false
  not_mcast : a.isMcast = false

structure Multicast (s : String) (a : IPv4Address) : Prop where
  dotted : Dotted s a
  mcast : a.isMcast = true

theorem isDefault_iff (a : IPv4Address) : a.isDefault = true ↔ a = ⟨0⟩ := by
  rw [IPv4Address.isDefault, beq_iff_eq, IPv4Address.ext_iff]
  rfl

theorem isLocalBroadcast_iff (a : IPv4Address) : a.isLocalBroadcast = true ↔ a = ⟨0xFFFFFFFF⟩ := by
  rw [IPv4Address.isLocalBroadcast, beq_iff_eq, IPv4Address.ext_iff]
  rfl

theorem not_dotted_of_none {s : String} {a : IPv4Address} (hs : parseIPv4Address s = none) :
    ¬ DottedDecimal s.toList a := by
  intro h
  have hsome := (parseIPv4Address_iff s a).mpr (Or.inl h)
  rw [hs] at hsome
  cases hsome

theorem ucAddr_ok {s : String} {typ : UCAddrType} {a : IPv4Address} :
    ucAddr s typ = .ok a ↔ Unicast s a := by
  have hparse := parseIPv4Address_iff s
  unfold ucAddr
  cases hs : parseIPv4Address s with
  | none =>
    exact iff_of_false (by simp) fun h => not_dotted_of_none hs h.dotted
  | some sa =>
    simp only [Bool.or_eq_true, isDefault_iff, isLocalBroadcast_iff]
    apply Iff.intro
    · intro h
      split_ifs at h with hspecial hloop hmcast
      injection h with h
      subst h
      rw [not_or] at hspecial
      rcases (hparse sa).mp hs with hdotted | ⟨_, hzero⟩
      · exact ⟨hdotted, hspecial.1, hspecial.2, by simpa using hloop, by simpa using hmcast⟩
      · exact absurd hzero hspecial.1
    · intro h
      have hsome := (hparse a).mpr (Or.inl h.dotted)
      rw [hs] at hsome
      injection hsome with hsome
      rw [hsome, if_neg (not_or.mpr ⟨h.not_default, h.not_broadcast⟩), h.not_loopback, h.not_mcast]
      rfl

theorem grpAddr_ok {s : String} {a : IPv4Address} : grpAddr s = .ok a ↔ Multicast s a := by
  have hparse := parseIPv4Address_iff s
  unfold grpAddr
  cases hs : parseIPv4Address s with
  | none =>
    exact iff_of_false (by simp) fun h => not_dotted_of_none hs h.dotted
  | some ga =>
    apply Iff.intro
    · intro h
      simp only [Bool.not_eq_true'] at h
      split_ifs at h with hmcast
      injection h with h
      subst h
      have hm : ga.isMcast = true := by simpa using hmcast
      rcases (hparse ga).mp hs with hdotted | ⟨_, hzero⟩
      · exact ⟨hdotted, hm⟩
      · rw [hzero] at hm
        exact absurd hm (by decide)
    · intro h
      have hsome := (hparse a).mpr (Or.inl h.dotted)
      rw [hs] at hsome
      injection hsome with hsome
      simp only [hsome, h.mcast]
      rfl

/-- A node that is a scalar with the notation of an address. -/
def NodeUnicast (n : Node) (a : IPv4Address) : Prop := ∃ s, n.str? = some s ∧ Unicast s a

/-! ### Views -/

structure View where
  seen : List IPv4Address
  count : ℕ
  rp : Option IPv4Address
  prunes : OrdSet IPv4Address
  joins : OrdSet IPv4Address

namespace View

def init : View := ⟨[], 0, none, OrdSet.empty, OrdSet.empty⟩

def addRP (v : View) (a : IPv4Address) : View := { v with seen := v.seen ++ [a], rp := some a }

def addPrune (v : View) (a : IPv4Address) : View :=
  { v with seen := v.seen ++ [a], count := v.count + 1, prunes := (v.prunes.emplace a).1 }

def addJoin (v : View) (a : IPv4Address) : View :=
  { v with seen := v.seen ++ [a], joins := (v.joins.emplace a).1 }

end View

namespace JPGroupConfigBuilder

def view (b : JPGroupConfigBuilder) : View where
  seen := b.sources.keys
  count := b.rptPrunedCount
  rp := b.rp
  prunes := b.rptPrunedSources
  joins := b.sgJoinedSources

/-! ### One address -/

theorem chkSrc_meets (nctx : ScalarContext) (src : IPv4Address) (jpst : JPSourceType)
    {k : Load Unit} {R : View → View → Prop} (h : Meets view k R) :
    Meets view (chkSrc nctx src jpst k) fun v v' =>
      src ∉ v.seen ∧ R { v with seen := v.seen ++ [src] } v' := by
  intro b v'
  have hnew := UnorderedMap.tryEmplace_snd b.sources src ⟨jpst, nctx.line⟩
  have hkeys : src ∉ b.sources.keys →
      view { b with sources := (b.sources.tryEmplace src ⟨jpst, nctx.line⟩).1 } =
        { view b with seen := (view b).seen ++ [src] } := by
    intro hnot
    have hadded := UnorderedMap.keys_tryEmplace b.sources src ⟨jpst, nctx.line⟩
    rw [if_neg hnot] at hadded
    simp only [view, hadded]
  simp only [chkSrc, clean_current_bind]
  by_cases hin : src ∈ b.sources.keys
  · have hold : ¬ (b.sources.tryEmplace src ⟨jpst, nctx.line⟩).2 = true := fun h => hnew.mp h hin
    rw [if_neg hold]
    apply Iff.intro
    · intro h'
      obtain ⟨b', hclean, _⟩ := h'
      exact absurd hclean clean_report
    · intro h'
      obtain ⟨hnot, _⟩ := h'
      exact absurd hin hnot
  · rw [if_pos (hnew.mpr hin), ← hkeys hin, ← h]
    simp only [clean_bind, clean_store]
    apply Iff.intro
    · intro h'
      obtain ⟨b', ⟨_, s, rfl, hclean⟩, hview⟩ := h'
      exact ⟨hin, b', hclean, hview⟩
    · intro h'
      obtain ⟨_, b', hclean, hview⟩ := h'
      exact ⟨b', ⟨(), _, rfl, hclean⟩, hview⟩

theorem withUcAddr_meets (r : Except ErrorContext ScalarContext) (typ : UCAddrType)
    {k : ScalarContext → IPv4Address → Load Unit} {R : IPv4Address → View → View → Prop}
    (h : ∀ sc a, Meets view (k sc a) (R a)) :
    Meets view (withUcAddr r typ k) fun v v' =>
      ∃ sc, r = .ok sc ∧ ∃ a, Unicast sc.value a ∧ R a v v' := by
  apply Meets.chk
  intro sc _
  have hmap : ∀ a, (ucAddr sc.value typ).mapError sc.error = .ok a ↔ Unicast sc.value a := by
    intro a
    have hok : Unicast sc.value a ↔ ucAddr sc.value typ = .ok a := ucAddr_ok.symm
    rw [hok]
    cases ucAddr sc.value typ with
    | ok b => simp only [Except.mapError, Except.ok.injEq]
    | error e => exact ⟨nofun, nofun⟩
  have hinner : Meets view (Logged.chk ((ucAddr sc.value typ).mapError sc.error) >>=
      fun o => ifSome o (k sc)) fun v v' =>
        ∃ a, (ucAddr sc.value typ).mapError sc.error = .ok a ∧ R a v v' :=
    Meets.chk fun a _ => h sc a
  exact hinner.congr fun v v' => exists_congr fun a => and_congr_left' (hmap a)

theorem adjust_meets {f : JPGroupConfigBuilder → JPGroupConfigBuilder} {g : View → View}
    (h : ∀ b, view (f b) = g (view b)) :
    Meets view (adjust f : Load Unit) fun v v' => v' = g v := by
  intro b v'
  simp only [clean_adjust, exists_eq_left, h]
  exact eq_comm

theorem acceptRP_meets (a : IPv4Address) :
    Meets view (acceptRP a) fun v v' => v' = { v with rp := some a } :=
  adjust_meets fun _ => rfl

theorem acceptJoinSG_meets (a : IPv4Address) :
    Meets view (acceptJoinSG a) fun v v' => v' = { v with joins := (v.joins.emplace a).1 } :=
  adjust_meets fun _ => rfl

theorem acceptPrune_meets (rSrc : ScalarContext) (src : IPv4Address) :
    Meets view (acceptPrune rSrc src) fun v v' => v.count < 180 ∧
      v' = { v with count := v.count + 1, prunes := (v.prunes.emplace src).1 } := by
  intro b v'
  simp only [acceptPrune, clean_current_bind]
  split_ifs with hlimit
  · apply Iff.intro
    · intro h
      obtain ⟨b', hclean, _⟩ := h
      exact absurd hclean clean_report
    · intro h
      obtain ⟨hlt, _⟩ := h
      exact absurd hlt (Nat.not_lt.mpr hlimit)
  · simp only [clean_bind, clean_store, acceptPruneSGrpt, clean_adjust]
    apply Iff.intro
    · intro h
      obtain ⟨b', ⟨_, b1, rfl, rfl⟩, rfl⟩ := h
      exact ⟨Nat.lt_of_not_le hlimit, rfl⟩
    · intro h
      obtain ⟨_, rfl⟩ := h
      exact ⟨_, ⟨(), _, rfl, rfl⟩, rfl⟩

/-! ### One entry -/

/-- A source node that adds an address to the view. -/
def SourceStep (ok : View → Prop) (add : View → IPv4Address → View) (n : Node) (v v' : View) :
    Prop :=
  ∃ a, NodeUnicast n a ∧ a ∉ v.seen ∧ ok v ∧ v' = add v a

theorem getScalar_unicast {c : ValueContext} {name : String} {P : IPv4Address → Prop} :
    (∃ sc, c.getScalar name = .ok sc ∧ ∃ a, Unicast sc.value a ∧ P a) ↔
      ∃ a, NodeUnicast c.node a ∧ P a := by
  apply Iff.intro
  · intro h
    obtain ⟨sc, hsc, a, ha, hP⟩ := h
    obtain ⟨line, value, hnode, rfl⟩ := getScalar_ok.mp hsc
    exact ⟨a, ⟨value, by rw [hnode]; rfl, ha⟩, hP⟩
  · intro h
    obtain ⟨a, ⟨s, hs, ha⟩, hP⟩ := h
    obtain ⟨line, hnode⟩ := Node.str?_eq_some.mp hs
    exact ⟨_, getScalar_ok.mpr ⟨line, s, hnode, rfl⟩, a, ha, hP⟩

theorem loadPrune_meets (c : ValueContext) :
    Meets view (loadPrune c) (SourceStep (fun v => v.count < 180) View.addPrune c.node) := by
  have h := withUcAddr_meets (c.getScalar "IPv4 source address") .Source fun sc a =>
    chkSrc_meets sc a .RptPruned (acceptPrune_meets sc a)
  exact h.congr fun v v' => getScalar_unicast

theorem loadJoin_meets (c : ValueContext) :
    Meets view (loadJoin c) (SourceStep (fun _ => True) View.addJoin c.node) := by
  have h := withUcAddr_meets (c.getScalar "IPv4 source address") .Source fun sc a =>
    chkSrc_meets sc a .SptJoined (acceptJoinSG_meets a)
  refine h.congr fun v v' => getScalar_unicast.trans ?_
  simp only [SourceStep, true_and]
  rfl

theorem loadRP_meets {o : Except ErrorContext ValueContext} :
    Meets view (loadRP (o.bind fun vctx => vctx.getScalar "IPv4 RP address")) fun v v' =>
      ∃ c, o = .ok c ∧ ∃ a, NodeUnicast c.node a ∧ a ∉ v.seen ∧ v' = v.addRP a := by
  have h := withUcAddr_meets (o.bind fun vctx => vctx.getScalar "IPv4 RP address") .RP
    fun sc a => chkSrc_meets sc a .RP (acceptRP_meets a)
  refine h.congr fun v v' => ?_
  cases o with
  | error e => simp [Except.bind]
  | ok c =>
    simp only [Except.bind, Except.ok.injEq, exists_eq_left']
    exact getScalar_unicast

/-! ### Lists of entries -/

/-- The addresses `as` of the nodes are new and distinct. -/
structure Fresh (nodes : List Node) (v : View) (as : List IPv4Address) : Prop where
  nodes : List.Forall₂ NodeUnicast nodes as
  nodup : as.Nodup
  fresh : ∀ a ∈ as, a ∉ v.seen

/-- The loop over source nodes accepts as many new and distinct addresses, each while `ok`. -/
theorem steps_sources {ok : View → Prop} {add : View → IPv4Address → View}
    (hseen : ∀ v a, (add v a).seen = v.seen ++ [a]) {cs : List ValueContext} {v v' : View} :
    Steps (fun c => SourceStep ok add c.node) cs v v' ↔
      ∃ as, Fresh (cs.map (·.node)) v as ∧
        (∀ pre a post, as = pre ++ a :: post → ok (pre.foldl add v)) ∧ v' = as.foldl add v := by
  induction cs generalizing v with
  | nil =>
    apply Iff.intro
    · intro h
      subst h
      exact ⟨[], ⟨List.Forall₂.nil, List.nodup_nil, by simp⟩, by simp, rfl⟩
    · intro h
      obtain ⟨as, ⟨hnodes, _, _⟩, _, hv⟩ := h
      cases hnodes
      exact hv
  | cons c cs ih =>
    apply Iff.intro
    · intro h
      obtain ⟨v1, ⟨a, hnode, hnew, hok, rfl⟩, hrest⟩ := h
      obtain ⟨as, ⟨hnodes, hnodup, hfresh⟩, hoks, hv⟩ := ih.mp hrest
      rw [hseen] at hfresh
      refine ⟨a :: as, ⟨List.Forall₂.cons hnode hnodes, ?_, ?_⟩, ?_, hv⟩
      · refine List.nodup_cons.mpr ⟨?_, hnodup⟩
        intro hin
        exact hfresh a hin (List.mem_append_right _ (List.mem_singleton.mpr rfl))
      · intro b hb
        rcases List.mem_cons.mp hb with rfl | hb
        · exact hnew
        · exact fun hin => hfresh b hb (List.mem_append_left _ hin)
      · intro pre b post heq
        cases pre with
        | nil => exact hok
        | cons x pre =>
          obtain ⟨rfl, htail⟩ := List.cons.inj heq
          exact hoks pre b post htail
    · intro h
      obtain ⟨as, ⟨hnodes, hnodup, hfresh⟩, hoks, hv⟩ := h
      cases hnodes with
      | @cons _ a _ as hnode hnodes =>
        obtain ⟨hnot, hnodup⟩ := List.nodup_cons.mp hnodup
        refine ⟨add v a, ⟨a, hnode, hfresh a List.mem_cons_self, hoks [] a as rfl, rfl⟩, ?_⟩
        refine ih.mpr ⟨as, ⟨hnodes, hnodup, ?_⟩, ?_, hv⟩
        · intro b hb hin
          rw [hseen, List.mem_append, List.mem_singleton] at hin
          rcases hin with hin | rfl
          · exact hfresh b (List.mem_cons_of_mem a hb) hin
          · exact hnot hb
        · intro pre b post heq
          exact hoks (a :: pre) b post (by rw [heq]; rfl)

theorem foldl_addPrune (as : List IPv4Address) (v : View) :
    as.foldl View.addPrune v = { v with
      seen := v.seen ++ as, count := v.count + as.length, prunes := v.prunes.insertAll as } := by
  induction as generalizing v with
  | nil =>
    simp only [List.foldl_nil, List.append_nil, List.length_nil, Nat.add_zero]
    rfl
  | cons a as ih =>
    rw [List.foldl_cons, ih]
    simp only [View.addPrune, List.append_assoc, List.singleton_append, List.length_cons,
      View.mk.injEq, true_and, and_true]
    exact ⟨by omega, rfl⟩

theorem foldl_addJoin (as : List IPv4Address) (v : View) :
    as.foldl View.addJoin v = { v with
      seen := v.seen ++ as, joins := v.joins.insertAll as } := by
  induction as generalizing v with
  | nil =>
    simp only [List.foldl_nil, List.append_nil]
    rfl
  | cons a as ih =>
    rw [List.foldl_cons, ih]
    simp only [View.addJoin, List.append_assoc, List.singleton_append]
    rfl

theorem count_fits (as : List IPv4Address) (v : View) :
    (∀ pre a post, as = pre ++ a :: post → (pre.foldl View.addPrune v).count < 180) ↔
      as = [] ∨ v.count + as.length ≤ 180 := by
  apply Iff.intro
  · intro h
    rcases List.eq_nil_or_concat as with rfl | ⟨pre, a, rfl⟩
    · exact Or.inl rfl
    · right
      have hlast := h pre a [] List.concat_eq_append
      rw [foldl_addPrune] at hlast
      simp only [List.concat_eq_append, List.length_append, List.length_singleton]
      change v.count + pre.length < 180 at hlast
      omega
  · intro h pre a post h'
    subst h'
    rw [foldl_addPrune]
    show v.count + pre.length < 180
    rcases h with h | h
    · cases pre <;> cases h
    · simp only [List.length_append, List.length_cons] at h
      omega

theorem loadPruneList_meets (c : ValueContext) :
    Meets view (loadPruneList c) fun v v' =>
      ∃ line elems as, c.node = .sequence line elems ∧ Fresh elems v as ∧
        (as = [] ∨ v.count + as.length ≤ 180) ∧ v' = as.foldl View.addPrune v := by
  have h : Meets view (loadPruneList c) fun v v' =>
      ∃ seq, c.getSequence "RPT-pruned sources" = .ok seq ∧
        Steps (fun c => SourceStep (fun v => v.count < 180) View.addPrune c.node) seq.list v v' :=
    Meets.chk fun seq _ => Meets.each fun c _ => loadPrune_meets c
  have hsteps := @steps_sources (fun v => v.count < 180) View.addPrune fun _ _ => rfl
  refine h.congr fun v v' => ?_
  simp only [hsteps, count_fits, list_nodes]
  apply Iff.intro
  · intro h'
    obtain ⟨seq, hseq, as, hfresh, hcount, hv⟩ := h'
    obtain ⟨line, elems, hnode, rfl⟩ := getSequence_ok.mp hseq
    exact ⟨line, elems, as, hnode, hfresh, hcount, hv⟩
  · intro h'
    obtain ⟨line, elems, as, hnode, hfresh, hcount, hv⟩ := h'
    exact ⟨_, getSequence_ok.mpr ⟨line, elems, hnode, rfl⟩, as, hfresh, hcount, hv⟩

theorem loadSPTConfig_meets (c : ValueContext) :
    Meets view (loadSPTConfig c) fun v v' =>
      ∃ line elems as, c.node = .sequence line elems ∧ Fresh elems v as ∧
        v' = as.foldl View.addJoin v := by
  have h : Meets view (loadSPTConfig c) fun v v' =>
      ∃ seq, c.getSequence "IPv4 SPT config" = .ok seq ∧
        Steps (fun c => SourceStep (fun _ => True) View.addJoin c.node) seq.list v v' :=
    Meets.chk fun seq _ => Meets.each fun c _ => loadJoin_meets c
  have hsteps := @steps_sources (fun _ => True) View.addJoin fun _ _ => rfl
  refine h.congr fun v v' => ?_
  simp only [hsteps, list_nodes]
  apply Iff.intro
  · intro h'
    obtain ⟨seq, hseq, as, hfresh, _, hv⟩ := h'
    obtain ⟨line, elems, hnode, rfl⟩ := getSequence_ok.mp hseq
    exact ⟨line, elems, as, hnode, hfresh, hv⟩
  · intro h'
    obtain ⟨line, elems, as, hnode, hfresh, hv⟩ := h'
    exact ⟨_, getSequence_ok.mpr ⟨line, elems, hnode, rfl⟩, as, hfresh,
      fun _ _ _ _ => trivial, hv⟩

end JPGroupConfigBuilder

end Pimc
