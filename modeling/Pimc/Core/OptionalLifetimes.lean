import Pimc.Core.OptionalStorage
import Pimc.Core.ResultLifetimes

/-!
# Lifetimes of the objects of optionals

An empty storage has no object to destroy, so an assignment whose construction
throws leaves an empty optional and not, as with `Result`, a flag without its
object. A constructor whose construction throws is the same in both.
-/

namespace Pimc

open Lib Act Store

variable {V : Type}

/-! ### What the type has to promise -/

def OptionalMember.Safe (s : OptionalSpec) : OptionalMember → Prop
  | initCopy => s.triviallyDestructible = true ∨ s.mayThrow .copy = false
  | initMove => s.triviallyDestructible = true ∨ s.mayThrow .move = false
  | initOther source => s.triviallyDestructible = true ∨ s.mayThrow (.convert source) = false
  | swap => s.triviallyDestructible = true ∨ s.mayThrow .move = false
  | _ => True

namespace OptionalTypes

variable (T : OptionalTypes V)

/-- What is left of an optional that is moved from. -/
def moved (c : Option V) : Option V := c.map T.movedValue

def Throws : Prop := ∃ k op, T.throws k op = true

def Free (a : OptionalAlt V) : Prop := T.triviallyDestructible = true ∨ a.live = none

/-- The storage of an optional in its lifetime. -/
inductive Is : OptionalAlt V → Option V → Prop
  | full (v : V) : Is ⟨some v, some true⟩ (some v)
  | empty {live : Option V} (h : T.Free ⟨live, some false⟩) : Is ⟨live, some false⟩ none

variable {T}

theorem not_throws {op : ObjectOp} {k : ℕ} (h : T.mayThrow op = false) : T.throws k op ≠ true := by
  intro hthrows
  rw [T.declared k op hthrows] at h
  cases h

end OptionalTypes

/-! ### Single functions -/

namespace OptionalStorage

open Function Passed

variable {T : OptionalTypes V} {vars : Option ℕ → Option (OptionalAlt V)} {n : ℕ}
  {x : Option ℕ} {r : Passed (Option V)} {a b : OptionalAlt V} {c d : Option V}
  {R : Optionals V → Prop} {H : Prop}

theorem wp_hasValue {Q : Bool → Optionals V → Prop} (hx : vars x = some a) (ha : T.Is a c) :
    wp (hasValue x) Q R H ⟨vars, n⟩ ↔ Q c.isSome ⟨vars, n⟩ := by
  unfold hasValue
  rw [wp_bind, wp_get hx]
  cases ha <;> rfl

theorem wp_value {v : V} {Q : V → Optionals V → Prop} (hx : vars x = some a)
    (ha : T.Is a (some v)) : wp (value x) Q R H ⟨vars, n⟩ ↔ Q v ⟨vars, n⟩ := by
  unfold value
  rw [wp_bind, wp_get hx]
  cases ha
  rfl

theorem wp_hasValueOf {Q : Bool → Optionals V → Prop} (h : r.Given T.Is vars c) :
    wp (hasValueOf r) Q R H ⟨vars, n⟩ ↔ Q c.isSome ⟨vars, n⟩ := by
  cases r with
  | named rvalue y =>
    obtain ⟨_, hy, ha⟩ := h
    exact wp_hasValue hy ha
  | other source d =>
    cases h
    exact Iff.rfl

theorem wp_valueOf {v : V} {Q : V → Optionals V → Prop} (h : r.Given T.Is vars (some v)) :
    wp (valueOf r) Q R H ⟨vars, n⟩ ↔ Q v ⟨vars, n⟩ := by
  cases r with
  | named rvalue y =>
    obtain ⟨_, hy, ha⟩ := h
    exact wp_value hy ha
  | other source d =>
    cases h
    exact Iff.rfl

variable {Q : Unit → Optionals V → Prop}

/-- An object may be built in what is left, and an empty storage is as it was. -/
theorem wp_destroy (hx : vars x = some a) (ha : T.Is a c)
    (hdone : ∀ b, T.Free b → (c = none → b = a) → Q () ⟨update vars x (some b), n⟩) :
    wp (destroy T x) Q R H ⟨vars, n⟩ := by
  have hkept : update vars x (some a) = vars := update_eq_self_iff.mpr hx.symm
  unfold destroy
  cases htrivial : T.triviallyDestructible with
  | true =>
    show Q () ⟨vars, n⟩
    rw [← hkept]
    exact hdone a (Or.inl htrivial) fun _ => rfl
  | false =>
    show wp (hasValue x >>= _) Q R H _
    rw [wp_bind, wp_hasValue hx ha]
    cases ha' : ha with
    | full v =>
      show wp (value x >>= _) Q R H _
      rw [wp_bind, wp_value hx ha]
      exact hdone _ (Or.inr rfl) nofun
    | empty hfree =>
      show Q () ⟨vars, n⟩
      rw [← hkept]
      exact hdone _ hfree fun _ => rfl

theorem wp_endScope (hx : vars x = some a) (ha : T.Is a c)
    (hdone : Q () ⟨update vars x none, n⟩) : wp (endScope T x) Q R H ⟨vars, n⟩ := by
  unfold endScope
  rw [wp_bind]
  refine wp_destroy hx ha fun b _ _ => ?_
  rw [wp_drop]
  dsimp only
  rw [update_idem]
  exact hdone

theorem wp_read (hx : vars x = some a) (ha : T.Is a c) :
    wp (read x) Q R H ⟨vars, n⟩ ↔ Q () ⟨vars, n⟩ := by
  unfold read
  rw [wp_bind, wp_hasValue hx ha]
  cases ha' : ha with
  | full v =>
    show wp (value x >>= _) Q R H _ ↔ _
    rw [wp_bind, wp_value hx ha]
    rfl
  | empty _ => exact Iff.rfl

theorem wp_reuse (hx : vars x = some a) (ha : T.Free a) : wp (reuse T x) Q R H ⟨vars, n⟩ ↔
    Q () ⟨update vars x (some { a with live := none }), n⟩ := by
  unfold reuse
  rw [wp_bind, wp_get hx]
  obtain ⟨live, flag⟩ := a
  cases live with
  | none =>
    show Q () ⟨vars, n⟩ ↔ Q () ⟨update vars x (some ⟨none, flag⟩), n⟩
    rw [update_eq_self_iff.mpr hx.symm]
  | some c =>
    rcases ha with htrivial | hnone
    · dsimp only
      rw [if_pos htrivial]
      exact Iff.rfl
    · cases hnone

theorem wp_constructValue {op : ObjectOp} {v : V} (hx : vars x = some a) (ha : T.Free a)
    (hdone : Q () ⟨update vars x (some ⟨some v, some true⟩), n + 1⟩)
    (hthrown : T.throws n op = true →
      R ⟨update vars x (some { a with live := none }), n + 1⟩) :
    wp (constructValue T op x v) Q R H ⟨vars, n⟩ := by
  unfold constructValue
  rw [wp_bind, wp_reuse hx ha, wp_bind]
  refine wp_operation (fun _ => ?_) hthrown
  rw [wp_set]
  dsimp only
  rw [update_idem]
  exact hdone

theorem wp_leaveValue {v : V} : wp (leaveValue T r v) Q R H ⟨vars, n⟩ ↔
    Q () ⟨r.leave ⟨some (T.movedValue v), some true⟩ vars, n⟩ := by
  cases r with
  | named rvalue y => cases rvalue <;> exact Iff.rfl
  | other source d => exact Iff.rfl

/-! ### Whole functions -/

section Functions

variable {s : Optionals V} {a : Option ℕ → Option (Option V)}

/-- The contents after `x` has been built or assigned from `r`. -/
def passed (T : OptionalTypes V) (a : Option ℕ → Option (Option V)) (x : Option ℕ)
    (r : Passed (Option V)) (c : Option V) : Option ℕ → Option (Option V) :=
  r.leave (T.moved c) (update a x (some c))

theorem wp_constructFromOptional {vars : Option ℕ → Option (OptionalAlt V)} {b : OptionalAlt V}
    (hr : r.Given T.Is vars c) (hx : vars x = some b) (hb : T.Free b)
    (hset : ∀ b', T.Is b' c → Holding T.Is (update vars x (some b')) (update a x (some c)))
    (hkept : c = none → passed T a x r c = update a x (some c))
    (hdone : ∀ t : Optionals V, Holding T.Is t.vars (passed T a x r c) → Q () t)
    (hthrown : ∀ v, c = some v → T.throws n r.ctor = true →
      R ⟨update vars x (some { b with live := none }), n + 1⟩) :
    wp (constructFromOptional T x r) Q R H ⟨vars, n⟩ := by
  unfold constructFromOptional
  rw [wp_bind, wp_hasValueOf hr]
  cases c with
  | some v =>
    show wp (valueOf r >>= _) Q R H _
    rw [wp_bind, wp_valueOf hr, wp_bind]
    refine wp_constructValue hx hb (wp_leaveValue.mpr (hdone _ ?_)) (hthrown v rfl)
    exact holding_leave (hset _ (.full v)) (.full _)
  | none =>
    show wp (get x >>= _) Q R H _
    rw [wp_bind, wp_get hx]
    refine hdone ⟨update vars x (some ⟨b.live, some false⟩), n⟩ ?_
    rw [hkept rfl]
    exact hset _ (.empty hb)

/-- An optional that is moved from when it is empty stays as it is. -/
theorem passed_none (hx : ¬r.Names x) (hr : r.Given Eq a c) (hc : c = none) :
    passed T a x r c = update a x (some c) := by
  subst hc
  cases r with
  | named rvalue y =>
    obtain ⟨_, hy, rfl⟩ := hr
    cases rvalue with
    | false => rfl
    | true => exact update_eq_self_iff.mpr ((update_of_ne hx _ _).trans hy).symm
  | other source d => rfl

theorem wp_constructFrom (hs : Holding T.Is s.vars a) (hx : a x = none) (hr : r.Given Eq a c)
    (hsafe : T.Throws → T.triviallyDestructible = true ∨ T.mayThrow r.ctor = false)
    (hdone : ∀ t : Optionals V, Holding T.Is t.vars (passed T a x r c) → Q () t)
    (hthrown : T.Throws → ∀ t : Optionals V, Holding T.Is t.vars a → R t) :
    wp (constructFrom T x r) Q R H s := by
  obtain ⟨vars, n⟩ := s
  have hgiven := given_of_holding hs hr
  have hnames := hr.not_names hx
  unfold constructFrom
  rw [wp_bind, wp_set, wp_unwinding]
  refine wp_constructFromOptional (hgiven.update hnames _) (update_self x _ _) (Or.inr rfl)
    (fun b hb => ?_) (passed_none hnames hr) hdone fun v hv h => ?_
  · rw [update_idem]
    exact hs.set hb
  · rcases hsafe ⟨_, _, h⟩ with htrivial | hno
    · -- there is no destructor
      have hdestroy : destroy T x = pure () := by
        unfold destroy
        rw [if_pos htrivial]
      rw [hdestroy]
      refine hthrown ⟨_, _, h⟩ _ ?_
      have hgone : Holding T.Is (update vars x none) (update a x none) := hs.drop
      have hkept : update a x none = a := update_eq_self_iff.mpr hx.symm
      rw [hkept] at hgone
      simp only [update_idem]
      exact hgone
    · exact absurd h (OptionalTypes.not_throws hno)

/-- An exception leaves the optional as it was. -/
theorem wp_assignFromOptional (hs : Holding T.Is s.vars a) (hx : a x = some c)
    (hr : r.Given Eq a d)
    (hdone : ∀ t : Optionals V, Holding T.Is t.vars (passed T a x r d) → Q () t)
    (hthrown : T.Throws → ∀ t : Optionals V, Holding T.Is t.vars a → R t) :
    wp (assignFromOptional T x r) Q R H s := by
  obtain ⟨vars, n⟩ := s
  have hgiven := given_of_holding hs hr
  obtain ⟨b, hvar, hb⟩ := hs.storage hx
  unfold assignFromOptional
  rw [wp_bind, wp_hasValue hvar hb, wp_bind, wp_hasValueOf hgiven]
  by_cases hsame : c.isSome = d.isSome
  · cases c with
    | some v =>
      cases d with
      | none => cases hsame
      | some w =>
        show wp (value x >>= _) Q R H _
        rw [wp_bind, wp_value hvar hb, wp_bind, wp_valueOf hgiven, wp_bind]
        refine wp_operation (fun _ => ?_) fun h => hthrown ⟨_, _, h⟩ _ hs
        rw [wp_bind, wp_set]
        exact wp_leaveValue.mpr (hdone _ (holding_leave (hs.set (.full w)) (.full _)))
    | none =>
      cases d with
      | some w => cases hsame
      | none =>
        refine hdone ⟨vars, n⟩ ?_
        have hassigned : update a x (some none) = a := update_eq_self_iff.mpr hx.symm
        have hleft : passed T a x r none = a := by
          unfold passed
          rw [hassigned]
          cases r with
          | named rvalue y =>
            obtain ⟨_, hy, rfl⟩ := hr
            cases rvalue with
            | false => rfl
            | true => exact update_eq_self_iff.mpr hy.symm
          | other source e => rfl
        rw [hleft]
        exact hs
  · have hnames : ¬r.Names x := by
      intro h
      cases r with
      | named rvalue y =>
        cases h
        obtain ⟨_, hy, rfl⟩ := hr
        rw [hx] at hy
        cases hy
        exact hsame rfl
      | other source e => exact h
    have hdiffer : (c.isSome != d.isSome) = true := by
      rw [bne_iff_ne]
      exact hsame
    rw [if_pos hdiffer, wp_bind]
    refine wp_destroy hvar hb fun b' hfree hempty => ?_
    refine wp_constructFromOptional (hgiven.update hnames _) (update_self x _ _) hfree
      (fun b'' hb'' => ?_) (passed_none hnames hr) hdone fun w hw h => ?_
    · rw [update_idem]
      exact hs.set hb''
    · -- the optional was empty
      subst hw
      have hc : c = none := by
        cases c with
        | none => rfl
        | some v => exact absurd rfl hsame
      subst hc
      refine hthrown ⟨_, _, h⟩ _ ?_
      rw [update_idem, hempty rfl]
      cases hb
      exact hs.replace hx (.empty (Or.inr rfl))

theorem wp_noexceptAssign {promised : Bool} (hs : Holding T.Is s.vars a) (hx : a x = some c)
    (hr : r.Given Eq a d)
    (hdone : ∀ t : Optionals V, Holding T.Is t.vars (passed T a x r d) → Q () t)
    (hthrown : T.Throws → ∀ t : Optionals V, Holding T.Is t.vars a → R t) :
    wp ((assignFromOptional T x r).noexcept promised) Q R T.Throws s := by
  rw [wp_noexcept]
  exact wp_assignFromOptional hs hx hr hdone fun h t ht => of_either h (hthrown h t ht)

theorem wp_assignValue {source : ℕ} {v : V} (hs : Holding T.Is s.vars a) (hx : a x = some c)
    (hdone : ∀ t : Optionals V, Holding T.Is t.vars (update a x (some (some v))) → Q () t)
    (hthrown : T.Throws → ∀ t : Optionals V, Holding T.Is t.vars a → R t) :
    wp (assignValue T x source v) Q R T.Throws s := by
  obtain ⟨vars, n⟩ := s
  obtain ⟨b, hvar, hb⟩ := hs.storage hx
  unfold assignValue
  rw [wp_noexcept, wp_bind, wp_hasValue hvar hb]
  cases c with
  | some w =>
    show wp (value x >>= _) Q _ _ _
    rw [wp_bind, wp_value hvar hb, wp_bind]
    exact wp_operation (fun _ => hdone _ (hs.set (.full v))) fun h =>
      of_either ⟨_, _, h⟩ (hthrown ⟨_, _, h⟩ _ hs)
  | none =>
    show wp (destroy T x >>= _) Q _ _ _
    rw [wp_bind]
    refine wp_destroy hvar hb fun b' hfree hempty => ?_
    refine wp_constructValue (update_self x _ _) hfree ?_ fun h => ?_
    · rw [update_idem]
      exact hdone _ (hs.set (.full v))
    · refine of_either ⟨_, _, h⟩ (hthrown ⟨_, _, h⟩ _ ?_)
      rw [update_idem, hempty rfl]
      cases hb
      exact hs.replace hx (.empty (Or.inr rfl))

theorem wp_swap {y : Option ℕ} (hs : Holding T.Is s.vars a) (hlocal : a none = none)
    (hx : a x = some c) (hy : a y = some d)
    (hsafe : T.Throws → T.triviallyDestructible = true ∨ T.mayThrow .move = false)
    (hdone : ∀ t : Optionals V,
      Holding T.Is t.vars (update (update a x (some d)) y (some c)) → Q () t)
    (hthrown : T.Throws → ∀ (t : Optionals V) b, b none = none → Holding T.Is t.vars b → R t) :
    wp (swap T x y) Q R T.Throws s := by
  obtain ⟨vars, n⟩ := s
  obtain ⟨b, hvarx, hb⟩ := hs.storage hx
  obtain ⟨b', hvary, hb'⟩ := hs.storage hy
  unfold swap
  rw [wp_noexcept, wp_bind, wp_hasValue hvarx hb, wp_bind, wp_hasValue hvary hb']
  by_cases hsame : c.isSome = d.isSome
  · cases c with
    | some v =>
      cases d with
      | none => cases hsame
      | some w =>
        show wp (value x >>= _) Q _ _ _
        rw [wp_bind, wp_value hvarx hb, wp_bind, wp_value hvary hb', wp_bind]
        exact wp_operation (fun _ => hdone _ ((hs.set (.full w)).set (.full v))) fun h =>
          of_either ⟨_, _, h⟩ (hthrown ⟨_, _, h⟩ _ a hlocal hs)
    | none =>
      cases d with
      | some w => cases hsame
      | none =>
        refine hdone ⟨vars, n⟩ ?_
        have hempty : update a x (some none) = a := update_eq_self_iff.mpr hx.symm
        rw [hempty, update_eq_self_iff.mpr hy.symm]
        exact hs
  · have hxy : x ≠ y := by
      rintro rfl
      rw [hx] at hy
      cases hy
      exact hsame rfl
    have hdiffer : ¬(c.isSome == d.isSome) = true := by
      rw [beq_iff_eq]
      exact hsame
    rw [if_neg hdiffer]
    refine wp_exchange T.Is T.moved (fun x r => constructFrom T x (.named true r)) (moveAssign T)
      (endScope T) (fun hs hx hr hdone hthrown =>
        wp_constructFrom hs hx ⟨_, hr, rfl⟩ hsafe hdone hthrown)
      (fun {_ a x _ c _ _ _} hs hx hr hdone hthrown =>
        wp_noexceptAssign (r := .named true _) hs hx ⟨_, hr, rfl⟩ hdone fun h t ht =>
          hthrown h t c ?_)
      (fun {s _ _ _ _ _} hs hx hdone => ?_) hs hlocal hx hy hxy hdone fun h t b hb ht =>
        of_either h (hthrown h t b hb ht)
    · rw [update_eq_self_iff.mpr hx.symm]
      exact ht
    · obtain ⟨_, hvar, hb⟩ := hs.storage hx
      exact wp_endScope hvar hb (hdone _ hs.drop)

end Functions

end OptionalStorage

/-! ### Statements and programs -/

namespace OptionalStmt

open Function Passed OptionalStorage

variable {T : OptionalTypes V}

def effect (T : OptionalTypes V) (a : Option ℕ → Option (Option V)) :
    OptionalStmt V → Option ℕ → Option (Option V)
  | initValue x _ v => update a (some x) (some (some v))
  | initEmpty x => update a (some x) (some none)
  | initCopy x r => update a (some x) (a (some r))
  | initMove x r => update (update a (some x) (a (some r))) (some r) ((a (some r)).map T.moved)
  | initOther x _ c => update a (some x) (some c)
  | assignValue x _ v => update a (some x) (some (some v))
  | assignCopy x r => update a (some x) (a (some r))
  | assignMove x r => update (update a (some x) (a (some r))) (some r) ((a (some r)).map T.moved)
  | assignOther x _ _ c => update a (some x) (some c)
  | swap x y => update (update a (some x) (a (some y))) (some y) (a (some x))
  | read _ => a
  | endScope x => update a (some x) none

def meaning (T : OptionalTypes V) (a : Option ℕ → Option (Option V)) (c : OptionalStmt V) :
    Option ℕ → Option (Option V) :=
  if Store.possible c.uses c.declares a then c.effect T a else a

/-- Between statements the optionals in scope hold the contents `a`. -/
structure Holds (T : OptionalTypes V) (s : Optionals V) (a : Option ℕ → Option (Option V)) :
    Prop where
  local_gone : a none = none
  holding : Holding T.Is s.vars a

section Effect

variable {a : Option ℕ → Option (Option V)} {s : Optionals V}

theorem meaning_none (c : OptionalStmt V) : c.meaning T a none = a none := by
  unfold meaning
  split_ifs
  · cases c <;> simp [effect]
  · rfl

/-- The members that a statement needs are safe, should anything be thrown. -/
def Guarded (T : OptionalTypes V) (c : OptionalStmt V) : Prop :=
  T.Throws → ∀ m ∈ c.member, m.Safe T.toOptionalSpec

theorem wp_body (hs : Holds T s a) {c : OptionalStmt V} (hT : c.Guarded T)
    (h : Store.possible c.uses c.declares a = true) :
    wp (c.body T) (fun _ t => Holding T.Is t.vars (c.effect T a))
      (fun t => T.Throws ∧ ∃ b, Holds T t b) T.Throws s := by
  obtain ⟨hlocal, hs⟩ := hs
  have hkept : T.Throws → ∀ t : Optionals V, Holding T.Is t.vars a →
      T.Throws ∧ ∃ b, Holds T t b := fun hthrows t ht => ⟨hthrows, a, hlocal, ht⟩
  have hthere : ∀ {x}, some x ∈ c.uses → ∃ d, a (some x) = some d := uses_some h
  cases c with
  | initValue x source v =>
    show wp (operation _ _ >>= _) _ _ _ _
    rw [wp_bind]
    exact wp_operation (fun _ => hs.set (.full v)) fun hthrows => hkept ⟨_, _, hthrows⟩ _ hs
  | initEmpty x => exact hs.set (.empty (Or.inr rfl))
  | initCopy x r =>
    obtain ⟨v, hv⟩ := hthere (List.mem_singleton_self _)
    refine wp_constructFrom hs (declares_none h) ⟨_, hv, rfl⟩ (fun hthrows => hT hthrows _ rfl)
      (fun t ht => ?_) hkept
    rw [effect, hv]
    exact ht
  | initMove x r =>
    obtain ⟨v, hv⟩ := hthere (List.mem_singleton_self _)
    refine wp_constructFrom hs (declares_none h) ⟨_, hv, rfl⟩ (fun hthrows => hT hthrows _ rfl)
      (fun t ht => ?_) hkept
    rw [effect, hv]
    exact ht
  | initOther x source d =>
    exact wp_constructFrom hs (declares_none h) rfl (fun hthrows => hT hthrows _ rfl)
      (fun t ht => ht) hkept
  | assignValue x source v =>
    obtain ⟨w, hw⟩ := hthere (List.mem_singleton_self _)
    exact wp_assignValue hs hw (fun t ht => ht) hkept
  | assignCopy x r =>
    obtain ⟨v, hv⟩ := hthere List.mem_cons_self
    obtain ⟨w, hw⟩ := hthere (List.mem_cons_of_mem _ (List.mem_singleton_self _))
    refine wp_assignFromOptional hs hv ⟨_, hw, rfl⟩ (fun t ht => ?_) hkept
    rw [effect, hw]
    exact ht
  | assignMove x r =>
    obtain ⟨v, hv⟩ := hthere List.mem_cons_self
    obtain ⟨w, hw⟩ := hthere (List.mem_cons_of_mem _ (List.mem_singleton_self _))
    refine wp_noexceptAssign hs hv ⟨_, hw, rfl⟩ (fun t ht => ?_) hkept
    rw [effect, hw]
    exact ht
  | assignOther x source constructed d =>
    obtain ⟨v, hv⟩ := hthere (List.mem_singleton_self _)
    exact wp_noexceptAssign hs hv rfl (fun t ht => ht) hkept
  | swap x y =>
    obtain ⟨v, hv⟩ := hthere List.mem_cons_self
    obtain ⟨w, hw⟩ := hthere (List.mem_cons_of_mem _ (List.mem_singleton_self _))
    refine wp_swap hs hlocal hv hw (fun hthrows => hT hthrows _ rfl) (fun t ht => ?_)
      fun hthrows t b hb ht => ⟨hthrows, b, hb, ht⟩
    rw [effect, hv, hw]
    exact ht
  | read x =>
    obtain ⟨v, hv⟩ := hthere (List.mem_singleton_self _)
    obtain ⟨_, hvar, hb⟩ := hs.storage hv
    exact (wp_read hvar hb).mpr hs
  | endScope x =>
    obtain ⟨v, hv⟩ := hthere (List.mem_singleton_self _)
    obtain ⟨_, hvar, hb⟩ := hs.storage hv
    exact wp_endScope hvar hb hs.drop

theorem Holds.wp_exec (hs : Holds T s a) {c : OptionalStmt V} (hT : c.Guarded T) :
    wp (c.exec T) (fun _ t => Holds T t (c.meaning T a)) (fun t => T.Throws ∧ ∃ b, Holds T t b)
      T.Throws s := by
  have hlocal := (@meaning_none V T a c).trans hs.local_gone
  unfold exec
  refine wp_onlyIf (fun h => ?_) fun h => ⟨hlocal, ?_⟩
  · rw [hs.holding.possible_eq] at h
    refine wp_mono (wp_body hs hT h) (fun _ t ht => ⟨hlocal, ?_⟩) (fun _ => id) id
    rw [meaning, if_pos h]
    exact ht
  · rw [hs.holding.possible_eq] at h
    rw [meaning, h]
    exact hs.holding

theorem holds_empty : Holds T (Store.empty : Optionals V) fun _ => none :=
  ⟨rfl, Store.holding_empty⟩

end Effect

end OptionalStmt

open OptionalStmt

theorem optionals_hold_values (T : OptionalTypes V) (hnone : ∀ k op, T.throws k op = false)
    (cs : List (OptionalStmt V)) : ∃ s, runAll (exec T) cs Store.empty = .done () s ∧
      Holding T.Is s.vars (cs.foldl (meaning T) fun _ => none) := by
  have hthrows : ¬T.Throws := by
    rintro ⟨k, op, h⟩
    rw [hnone] at h
    cases h
  have hrun : wp (runAll (exec T) cs) (fun _ t => Holds T t (cs.foldl (meaning T) fun _ => none))
      (fun _ => False) False Store.empty := wp_runAll (fun c _ s a hs =>
    wp_mono (hs.wp_exec fun h => absurd h hthrows) (fun _ _ ht => ht)
      (fun _ ht => absurd ht.1 hthrows) hthrows) holds_empty
  obtain ⟨_, s, hdone, hs⟩ := wp_returns hrun
  exact ⟨s, hdone, hs.holding⟩

/-! ### What comes to grief -/

def OptionalSpec.failing (s : OptionalSpec) (k : ℕ) : OptionalTypes V where
  toOptionalSpec := s
  throws i op := decide (i = k) && s.mayThrow op
  declared i op h := by
    rw [Bool.and_eq_true] at h
    exact h.2
  movedValue := id

theorem OptionalSpec.failing_throws (s : OptionalSpec) (k : ℕ) {op : ObjectOp}
    (h : s.mayThrow op = true) : (s.failing k : OptionalTypes V).throws k op = true := by
  show (decide (k = k) && s.mayThrow op) = true
  rw [h, decide_eq_true rfl]
  rfl

namespace OptionalStorage

open Function Passed

variable {T : OptionalTypes V} {vars : Option ℕ → Option (OptionalAlt V)} {n : ℕ} {x : Option ℕ}
  {r : Passed (Option V)} {v : V}

/-- The destructor of the storage reads the flag that is not set. -/
theorem constructFrom_undefined (htrivial : T.triviallyDestructible = false)
    (hr : r.Given T.Is vars (some v)) (hx : vars x = none) (h : T.throws n r.ctor = true) :
    constructFrom T x r ⟨vars, n⟩ = .undefined .indeterminate := by
  have hgiven := hr.update (hr.not_names hx) (some ⟨none, none⟩)
  have hthrown : constructFromOptional T x r ⟨update vars x (some ⟨none, none⟩), n⟩ =
      .thrown ⟨update vars x (some ⟨none, none⟩), n + 1⟩ := by
    apply thrown_of_wp
    unfold constructFromOptional
    rw [wp_bind, wp_hasValueOf hgiven]
    show wp (valueOf r >>= _) _ _ _ _
    rw [wp_bind, wp_valueOf hgiven, wp_bind]
    unfold constructValue
    rw [wp_bind, wp_reuse (update_self x _ _) (Or.inr rfl), wp_bind, update_idem]
    refine wp_operation (fun hno => ?_) fun _ => rfl
    rw [h] at hno
    cases hno
  have hdestroy : destroy T x ⟨update vars x (some ⟨none, none⟩), n + 1⟩ =
      .undefined .indeterminate := by
    unfold destroy
    rw [htrivial]
    exact bind_undefined ((bind_done (get_done (update_self x _ _))).trans rfl)
  have hset : (set x ⟨none, none⟩ : OptionalAct V Unit) ⟨vars, n⟩ =
      .done () ⟨update vars x (some ⟨none, none⟩), n⟩ := rfl
  unfold constructFrom
  rw [bind_done hset]
  exact unwinding_thrown hthrown (bind_undefined hdestroy)

end OptionalStorage

namespace OptionalStmt

open Function Passed OptionalStorage

def Offered (members : Set OptionalMember) (c : OptionalStmt V) : Prop :=
  ∀ m ∈ c.member, m ∈ members

/-- No program over the members does anything undefined, whatever a type with the promises `s`
does. -/
def Defined (V : Type) (s : OptionalSpec) (members : Set OptionalMember) : Prop :=
  ∀ T : OptionalTypes V, T.toOptionalSpec = s → ∀ cs : List (OptionalStmt V),
    (∀ c ∈ cs, c.Offered members) → ∀ e : Misuse, runAll (exec T) cs Store.empty ≠ .undefined e

section Grief

variable {s : OptionalSpec} {members : Set OptionalMember} {r : Passed (Option V)}

/-- The optionals `0` and `1` have been declared. -/
def pair (v : V) : Optionals V :=
  ⟨update (update (fun _ => none) (some 0) (some ⟨some v, some true⟩)) (some 1)
    (some ⟨none, some false⟩), 1⟩

theorem runAll_pair (v : V) (c : OptionalStmt V) :
    runAll (exec (s.failing 1)) [initValue 0 0 v, initEmpty 1, c] Store.empty =
      runAll (exec (s.failing 1)) [c] (pair v) := by
  have hfirst : exec (s.failing 1) (initValue 0 0 v) Store.empty =
      .done () ⟨update (fun _ => none) (some 0) (some ⟨some v, some true⟩), 1⟩ := rfl
  rw [runAll_done hfirst]
  exact runAll_done rfl

variable [Inhabited V]

end Grief

end OptionalStmt

end Pimc
