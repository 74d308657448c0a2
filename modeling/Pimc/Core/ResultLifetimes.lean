import Mathlib.Data.Set.Defs
import Mathlib.Tactic.SplitIfs
import Pimc.Core.ResultStorage

/-!
# Lifetimes of the objects of results

A storage is sound when the object that its flag tells of is the one alive. The
functions of the storage keep that, and what they do to the objects is what the
same statement does to plain values. A function of which the types do not keep
that is shown a program which comes to grief.
-/

namespace Pimc

open Lib Act Store

variable {V E : Type}

/-- The storage of a result in its lifetime. -/
def ResultAlt.of (c : V ⊕ E) : ResultAlt V E := ⟨some c, some c.isLeft⟩

def Alternative.of : V ⊕ E → Alternative
  | .inl _ => .value
  | .inr _ => .error

/-! ### What the types have to promise -/

def ResultSpec.NoThrow (s : ResultSpec) (op : ObjectOp) : Prop := ∀ alt, s.mayThrow alt op = false

/-- No exception leaves a result without its object. -/
def ResultMember.Safe (s : ResultSpec) : ResultMember → Prop
  | initCopy => s.triviallyDestructible = true ∨ s.NoThrow .copy
  | initMove => s.triviallyDestructible = true ∨ s.NoThrow .move
  | initOther source => s.triviallyDestructible = true ∨ s.NoThrow (.convert source)
  | assignValue source =>
    s.mayThrow .value (.convertAssign source) = false ∨ s.mayThrow .value (.convert source) = false
  | assignError source =>
    s.mayThrow .error (.convertAssign source) = false ∨ s.mayThrow .error (.convert source) = false
  | assignCopy => s.NoThrow .copy
  | assignMove => s.nothrowMoveAssignable = true ∨ s.NoThrow .move
  | assignOther source constructed =>
    s.nothrowAssignableFrom source constructed = true ∨ s.NoThrow (.convert source)
  | swap => s.triviallyDestructible = true ∧ s.nothrowMoveAssignable = true ∨ s.NoThrow .move

namespace ResultTypes

variable (T : ResultTypes V E)

/-- What is left of an object that is moved from. -/
def moved (c : V ⊕ E) : V ⊕ E := c.map T.movedValue T.movedError

/-- What is left of a storage that is destroyed. -/
def destroyed (c : V ⊕ E) : ResultAlt V E :=
  if T.triviallyDestructible then .of c else ⟨none, some false⟩

/-- A storage in which nothing was built after it was destroyed. -/
def emptied (c : V ⊕ E) : ResultAlt V E := { T.destroyed c with live := none }

def Throws : Prop := ∃ k op, T.throws k op = true

/-- An object may be built in the storage. -/
def Free (a : ResultAlt V E) : Prop := T.triviallyDestructible = true ∨ a.live = none

variable {T}

theorem destroyed_free (c : V ⊕ E) : T.Free (T.destroyed c) := by
  unfold Free destroyed
  cases T.triviallyDestructible
  · exact Or.inr rfl
  · exact Or.inl rfl

theorem not_throws {op : ObjectOp} {alt : Alternative} {k : ℕ} (h : T.mayThrow alt op = false) :
    T.throws k (alt, op) ≠ true := by
  intro hthrows
  rw [T.declared k alt op hthrows] at h
  cases h

end ResultTypes

/-! ### The argument of a function -/

namespace Passed

open Function

variable {C S : Type}

/-- The argument has the contents `c`. -/
def Given (rel : S → C → Prop) (vars : Option ℕ → Option S) (c : C) : Passed C → Prop
  | named _ r => ∃ s, vars r = some s ∧ rel s c
  | other _ d => d = c

/-- The argument is the variable `x`. -/
def Names (x : Option ℕ) : Passed C → Prop
  | named _ r => r = x
  | other _ _ => False

/-- The variables when `left` is in the place of an argument that is moved from. -/
def leave {X : Type} (r : Passed C) (left : X) (vars : Option ℕ → Option X) : Option ℕ → Option X :=
  match r with
  | named true r => update vars r (some left)
  | _ => vars

variable {rel : S → C → Prop} {vars : Option ℕ → Option S} {a : Option ℕ → Option C} {c d : C}
  {r : Passed C} {x : Option ℕ}

theorem Given.update (h : r.Given rel vars c) (hx : ¬r.Names x) (s : Option S) :
    r.Given rel (update vars x s) c := by
  cases r with
  | named rvalue y =>
    obtain ⟨t, hy, ht⟩ := h
    exact ⟨t, (update_of_ne hx _ _).trans hy, ht⟩
  | other source d => exact h

theorem Given.not_names (h : r.Given rel vars c) (hx : vars x = none) : ¬r.Names x := by
  intro hnames
  cases r with
  | named rvalue y =>
    cases hnames
    obtain ⟨_, hy, _⟩ := h
    rw [hx] at hy
    cases hy
  | other source d => exact hnames

theorem given_of_holding (h : Holding rel vars a) (hr : r.Given Eq a c) : r.Given rel vars c := by
  cases r with
  | named rvalue y =>
    obtain ⟨_, hy, rfl⟩ := hr
    exact h.storage hy
  | other source d => exact hr

theorem holding_leave (h : Holding rel vars a) {s : S} (hs : rel s d) :
    Holding rel (r.leave s vars) (r.leave d a) := by
  cases r with
  | named rvalue y =>
    cases rvalue with
    | false => exact h
    | true => exact h.set hs
  | other source e => exact h

end Passed

/-! ### Single functions -/

namespace ResultStorage

open Function Passed

/-- The storage has the contents `c` and no others. -/
abbrev Is (s : ResultAlt V E) (c : V ⊕ E) : Prop := s = .of c

variable {T : ResultTypes V E} {vars : Option ℕ → Option (ResultAlt V E)} {n : ℕ}
  {x : Option ℕ} {r : Passed (V ⊕ E)} {c d : V ⊕ E} {R : Results V E → Prop} {H : Prop}

theorem wp_hasValue {Q : Bool → Results V E → Prop} (hx : vars x = some (.of c)) :
    wp (hasValue x) Q R H ⟨vars, n⟩ ↔ Q c.isLeft ⟨vars, n⟩ := by
  unfold hasValue
  rw [wp_bind, wp_get hx]
  rfl

theorem wp_value {v : V} {Q : V → Results V E → Prop} (hx : vars x = some (.of (.inl v))) :
    wp (value x) Q R H ⟨vars, n⟩ ↔ Q v ⟨vars, n⟩ := by
  unfold value
  rw [wp_bind, wp_get hx]
  rfl

theorem wp_error {e : E} {Q : E → Results V E → Prop} (hx : vars x = some (.of (.inr e))) :
    wp (error x) Q R H ⟨vars, n⟩ ↔ Q e ⟨vars, n⟩ := by
  unfold error
  rw [wp_bind, wp_get hx]
  rfl

theorem wp_hasValueOf {Q : Bool → Results V E → Prop} (h : r.Given Is vars c) :
    wp (hasValueOf r) Q R H ⟨vars, n⟩ ↔ Q c.isLeft ⟨vars, n⟩ := by
  cases r with
  | named rvalue y =>
    obtain ⟨_, hy, rfl⟩ := h
    exact wp_hasValue hy
  | other source d =>
    cases h
    exact Iff.rfl

theorem wp_valueOf {v : V} {Q : V → Results V E → Prop} (h : r.Given Is vars (.inl v)) :
    wp (valueOf r) Q R H ⟨vars, n⟩ ↔ Q v ⟨vars, n⟩ := by
  cases r with
  | named rvalue y =>
    obtain ⟨_, hy, rfl⟩ := h
    exact wp_value hy
  | other source d =>
    cases h
    exact Iff.rfl

theorem wp_errorOf {e : E} {Q : E → Results V E → Prop} (h : r.Given Is vars (.inr e)) :
    wp (errorOf r) Q R H ⟨vars, n⟩ ↔ Q e ⟨vars, n⟩ := by
  cases r with
  | named rvalue y =>
    obtain ⟨_, hy, rfl⟩ := h
    exact wp_error hy
  | other source d =>
    cases h
    exact Iff.rfl

variable {Q : Unit → Results V E → Prop}

theorem wp_destroy (hx : vars x = some (.of c)) :
    wp (destroy T x) Q R H ⟨vars, n⟩ ↔ Q () ⟨update vars x (some (T.destroyed c)), n⟩ := by
  unfold destroy ResultTypes.destroyed
  cases T.triviallyDestructible with
  | true =>
    show Q () ⟨vars, n⟩ ↔ Q () ⟨update vars x (some (.of c)), n⟩
    rw [update_eq_self_iff.mpr hx.symm]
  | false =>
    show wp (hasValue x >>= _) Q R H _ ↔ _
    rw [wp_bind, wp_hasValue hx]
    cases c with
    | inl v =>
      show wp (value x >>= _) Q R H _ ↔ _
      rw [wp_bind, wp_value hx]
      rfl
    | inr e =>
      show wp (error x >>= _) Q R H _ ↔ _
      rw [wp_bind, wp_error hx]
      rfl

theorem wp_endScope (hx : vars x = some (.of c)) :
    wp (endScope T x) Q R H ⟨vars, n⟩ ↔ Q () ⟨update vars x none, n⟩ := by
  unfold endScope
  rw [wp_bind, wp_destroy hx, wp_drop]
  simp only [update_idem]

theorem wp_read (hx : vars x = some (.of c)) :
    wp (read x) Q R H ⟨vars, n⟩ ↔ Q () ⟨vars, n⟩ := by
  unfold read
  rw [wp_bind, wp_hasValue hx]
  cases c with
  | inl v =>
    show wp (value x >>= _) Q R H _ ↔ _
    rw [wp_bind, wp_value hx]
    rfl
  | inr e =>
    show wp (error x >>= _) Q R H _ ↔ _
    rw [wp_bind, wp_error hx]
    rfl

section Construct

variable {a : ResultAlt V E} {op : ObjectOp}

/-- What was in the storage is gone. -/
theorem wp_reuse (hx : vars x = some a) (ha : T.Free a) : wp (reuse T x) Q R H ⟨vars, n⟩ ↔
    Q () ⟨update vars x (some { a with live := none }), n⟩ := by
  unfold reuse
  rw [wp_bind, wp_get hx]
  obtain ⟨live, flag⟩ := a
  cases live with
  | none =>
    show Q () ⟨vars, n⟩ ↔ Q () ⟨update vars x (some ⟨none, flag⟩), n⟩
    rw [update_eq_self_iff.mpr hx.symm]
  | some c =>
    rcases ha with htrivial | hnone
    · dsimp only
      rw [if_pos htrivial]
      exact Iff.rfl
    · cases hnone

theorem wp_constructValue {v : V} (hx : vars x = some a) (ha : T.Free a)
    (hdone : T.throws n (.value, op) = false → Q () ⟨update vars x (some (.of (.inl v))), n + 1⟩)
    (hthrown : T.throws n (.value, op) = true →
      R ⟨update vars x (some { a with live := none }), n + 1⟩) :
    wp (constructValue T op x v) Q R H ⟨vars, n⟩ := by
  unfold constructValue
  rw [wp_bind, wp_reuse hx ha, wp_bind]
  refine wp_operation (fun h => ?_) hthrown
  rw [wp_set]
  dsimp only
  rw [update_idem]
  exact hdone h

theorem wp_constructError {e : E} (hx : vars x = some a) (ha : T.Free a)
    (hdone : T.throws n (.error, op) = false → Q () ⟨update vars x (some (.of (.inr e))), n + 1⟩)
    (hthrown : T.throws n (.error, op) = true →
      R ⟨update vars x (some { a with live := none }), n + 1⟩) :
    wp (constructError T op x e) Q R H ⟨vars, n⟩ := by
  unfold constructError
  rw [wp_bind, wp_reuse hx ha, wp_bind]
  refine wp_operation (fun h => ?_) hthrown
  rw [wp_set]
  dsimp only
  rw [update_idem]
  exact hdone h

theorem wp_leaveValue {v : V} : wp (leaveValue T r v) Q R H ⟨vars, n⟩ ↔
    Q () ⟨r.leave (.of (T.moved (.inl v))) vars, n⟩ := by
  cases r with
  | named rvalue y => cases rvalue <;> exact Iff.rfl
  | other source d => exact Iff.rfl

theorem wp_leaveError {e : E} : wp (leaveError T r e) Q R H ⟨vars, n⟩ ↔
    Q () ⟨r.leave (.of (T.moved (.inr e))) vars, n⟩ := by
  cases r with
  | named rvalue y => cases rvalue <;> exact Iff.rfl
  | other source d => exact Iff.rfl

theorem wp_constructFromResult (hr : r.Given Is vars c) (hx : vars x = some a) (ha : T.Free a)
    (hdone : T.throws n (.of c, r.ctor) = false →
      Q () ⟨r.leave (.of (T.moved c)) (update vars x (some (.of c))), n + 1⟩)
    (hthrown : T.throws n (.of c, r.ctor) = true →
      R ⟨update vars x (some { a with live := none }), n + 1⟩) :
    wp (constructFromResult T x r) Q R H ⟨vars, n⟩ := by
  unfold constructFromResult
  rw [wp_bind, wp_hasValueOf hr]
  cases c with
  | inl v =>
    show wp (valueOf r >>= _) Q R _ _
    rw [wp_bind, wp_valueOf hr, wp_bind]
    exact wp_constructValue hx ha (fun h => wp_leaveValue.mpr (hdone h)) hthrown
  | inr e =>
    show wp (errorOf r >>= _) Q R _ _
    rw [wp_bind, wp_errorOf hr, wp_bind]
    exact wp_constructError hx ha (fun h => wp_leaveError.mpr (hdone h)) hthrown

/-- The old contents give way to those of `r`, which are of the other alternative. -/
theorem wp_rebuild (hx : vars x = some (.of c)) (hr : r.Given Is vars d) (hnames : ¬r.Names x)
    (hdone : T.throws n (.of d, r.ctor) = false →
      Q () ⟨r.leave (.of (T.moved d)) (update vars x (some (.of d))), n + 1⟩)
    (hthrown : T.throws n (.of d, r.ctor) = true →
      R ⟨update vars x (some (T.emptied c)), n + 1⟩) :
    wp (destroy T x >>= fun _ => constructFromResult T x r) Q R H ⟨vars, n⟩ := by
  rw [wp_bind, wp_destroy hx]
  refine wp_constructFromResult (hr.update hnames _) (update_self x _ _)
    (ResultTypes.destroyed_free c) (fun h => ?_) fun h => ?_
  · rw [update_idem]
    exact hdone h
  · rw [update_idem]
    exact hthrown h

theorem not_names (hx : vars x = some (.of c)) (hr : r.Given Is vars d)
    (hdiffer : c.isLeft ≠ d.isLeft) : ¬r.Names x := by
  intro h
  cases r with
  | named rvalue y =>
    cases h
    obtain ⟨_, hy, rfl⟩ := hr
    rw [hx] at hy
    cases c <;> cases d <;> simp_all [ResultAlt.of]
  | other source e => exact h

end Construct

/-! ### Whole functions

They go from results with the contents `a` to results with other contents. -/

section Functions

variable {a : Option ℕ → Option (V ⊕ E)} {s : Results V E}

/-- The contents after `x` has been built or assigned from `r`. -/
def passed (T : ResultTypes V E) (a : Option ℕ → Option (V ⊕ E)) (x : Option ℕ)
    (r : Passed (V ⊕ E)) (c : V ⊕ E) : Option ℕ → Option (V ⊕ E) :=
  r.leave (T.moved c) (update a x (some c))

theorem wp_constructFrom (hs : Holding Is s.vars a) (hx : a x = none) (hr : r.Given Eq a c)
    (hsafe : T.Throws → T.triviallyDestructible = true ∨ T.NoThrow r.ctor)
    (hdone : ∀ t : Results V E, Holding Is t.vars (passed T a x r c) → Q () t)
    (hthrown : T.Throws → ∀ t : Results V E, Holding Is t.vars a → R t) :
    wp (constructFrom T x r) Q R H s := by
  obtain ⟨vars, n⟩ := s
  have hnames := hr.not_names hx
  unfold constructFrom
  rw [wp_bind, wp_set, wp_unwinding]
  refine wp_constructFromResult ((given_of_holding hs hr).update hnames _) (update_self x _ _)
    (Or.inr rfl) (fun _ => ?_) fun h => ?_
  · apply hdone
    rw [update_idem]
    exact holding_leave (hs.set rfl) rfl
  · rcases hsafe ⟨_, _, h⟩ with htrivial | hno
    · -- there is no destructor
      have hdestroy : destroy T x = pure () := by
        unfold destroy
        rw [if_pos htrivial]
      rw [hdestroy]
      refine hthrown ⟨_, _, h⟩ _ ?_
      have hgone : Holding Is (update vars x none) (update a x none) := hs.drop
      have hkept : update a x none = a := update_eq_self_iff.mpr hx.symm
      rw [hkept] at hgone
      simp only [update_idem]
      exact hgone
    · exact absurd h (ResultTypes.not_throws (hno _))

theorem wp_assignFromResult (hs : Holding Is s.vars a) (hx : a x = some c)
    (hr : r.Given Eq a d)
    (hdone : ∀ t : Results V E, Holding Is t.vars (passed T a x r d) → Q () t)
    (hassign : T.Throws → ∀ t : Results V E, Holding Is t.vars a → R t)
    (hconstruct : ∀ t alt, T.throws s.ops (alt, r.ctor) = true → R t) :
    wp (assignFromResult T x r) Q R H s := by
  obtain ⟨vars, n⟩ := s
  obtain ⟨_, hvar, rfl⟩ := hs.storage hx
  have hr := given_of_holding hs hr
  unfold assignFromResult
  rw [wp_bind, wp_hasValue hvar, wp_bind, wp_hasValueOf hr]
  have hset : Holding Is (r.leave (.of (T.moved d)) (update vars x (some (.of d))))
      (passed T a x r d) := holding_leave (hs.set rfl) rfl
  by_cases hsame : c.isLeft = d.isLeft
  · cases c with
    | inl v =>
      cases d with
      | inr f => cases hsame
      | inl w =>
        show wp (value x >>= _) Q R _ _
        rw [wp_bind, wp_value hvar, wp_bind, wp_valueOf hr, wp_bind]
        refine wp_operation (fun _ => ?_) fun h => hassign ⟨_, _, h⟩ _ hs
        rw [wp_bind, wp_set]
        exact wp_leaveValue.mpr (hdone _ hset)
    | inr e =>
      cases d with
      | inl w => cases hsame
      | inr f =>
        show wp (error x >>= _) Q R _ _
        rw [wp_bind, wp_error hvar, wp_bind, wp_errorOf hr, wp_bind]
        refine wp_operation (fun _ => ?_) fun h => hassign ⟨_, _, h⟩ _ hs
        rw [wp_bind, wp_set]
        exact wp_leaveError.mpr (hdone _ hset)
  · have hdiffer : (c.isLeft != d.isLeft) = true := by
      rw [bne_iff_ne]
      exact hsame
    rw [if_pos hdiffer]
    exact wp_rebuild hvar hr (not_names hvar hr hsame) (fun _ => hdone _ hset) fun h =>
      hconstruct _ _ h

/-- An assignment which keeps its promise, or of which no construction throws. -/
theorem wp_noexceptAssign {promised : Bool} (hs : Holding Is s.vars a) (hx : a x = some c)
    (hr : r.Given Eq a d) (hsafe : T.Throws → promised = true ∨ T.NoThrow r.ctor)
    (hdone : ∀ t : Results V E, Holding Is t.vars (passed T a x r d) → Q () t)
    (hthrown : T.Throws → ∀ t : Results V E, Holding Is t.vars a → R t) :
    wp ((assignFromResult T x r).noexcept promised) Q R T.Throws s := by
  rw [wp_noexcept]
  refine wp_assignFromResult hs hx hr hdone (fun h t ht => of_either h (hthrown h t ht))
    fun t alt h => ?_
  rcases hsafe ⟨_, _, h⟩ with hpromised | hno
  · rw [if_pos hpromised]
    exact ⟨_, _, h⟩
  · exact absurd h (ResultTypes.not_throws (hno alt))

theorem wp_assignValue {source : ℕ} {v : V} (hs : Holding Is s.vars a) (hx : a x = some c)
    (hsafe : T.Throws → ResultMember.Safe T.toResultSpec (.assignValue source))
    (hdone : ∀ t : Results V E, Holding Is t.vars (update a x (some (.inl v))) → Q () t)
    (hthrown : T.Throws → ∀ t : Results V E, Holding Is t.vars a → R t) :
    wp (assignValue T x source v) Q R T.Throws s := by
  obtain ⟨vars, n⟩ := s
  obtain ⟨_, hvar, rfl⟩ := hs.storage hx
  unfold assignValue
  rw [wp_noexcept, wp_bind, wp_hasValue hvar]
  cases c with
  | inl w =>
    show wp (value x >>= _) Q _ _ _
    rw [wp_bind, wp_value hvar, wp_bind]
    exact wp_operation (fun _ => hdone _ (hs.set rfl)) fun h =>
      of_either ⟨_, _, h⟩ (hthrown ⟨_, _, h⟩ _ hs)
  | inr e =>
    show wp (destroy T x >>= _) Q _ _ _
    rw [wp_bind, wp_destroy hvar]
    refine wp_constructValue (update_self x _ _) (ResultTypes.destroyed_free _) (fun _ => ?_)
      fun h => ?_
    · rw [update_idem]
      exact hdone _ (hs.set rfl)
    · rcases hsafe ⟨_, _, h⟩ with hpromised | hno
      · rw [hpromised]
        exact ⟨_, _, h⟩
      · exact absurd h (ResultTypes.not_throws hno)

theorem wp_assignError {source : ℕ} {e : E} (hs : Holding Is s.vars a) (hx : a x = some c)
    (hsafe : T.Throws → ResultMember.Safe T.toResultSpec (.assignError source))
    (hdone : ∀ t : Results V E, Holding Is t.vars (update a x (some (.inr e))) → Q () t)
    (hthrown : T.Throws → ∀ t : Results V E, Holding Is t.vars a → R t) :
    wp (assignError T x source e) Q R T.Throws s := by
  obtain ⟨vars, n⟩ := s
  obtain ⟨_, hvar, rfl⟩ := hs.storage hx
  unfold assignError
  rw [wp_noexcept, wp_bind, wp_hasValue hvar]
  cases c with
  | inl v =>
    show wp (destroy T x >>= _) Q _ _ _
    rw [wp_bind, wp_destroy hvar]
    refine wp_constructError (update_self x _ _) (ResultTypes.destroyed_free _) (fun _ => ?_)
      fun h => ?_
    · rw [update_idem]
      exact hdone _ (hs.set rfl)
    · rcases hsafe ⟨_, _, h⟩ with hpromised | hno
      · rw [hpromised]
        exact ⟨_, _, h⟩
      · exact absurd h (ResultTypes.not_throws hno)
  | inr f =>
    show wp (error x >>= _) Q _ _ _
    rw [wp_bind, wp_error hvar, wp_bind]
    exact wp_operation (fun _ => hdone _ (hs.set rfl)) fun h =>
      of_either ⟨_, _, h⟩ (hthrown ⟨_, _, h⟩ _ hs)

theorem wp_swap {y : Option ℕ} (hs : Holding Is s.vars a) (hlocal : a none = none)
    (hx : a x = some c) (hy : a y = some d)
    (hsafe : T.Throws → ResultMember.Safe T.toResultSpec .swap)
    (hdone : ∀ t : Results V E,
      Holding Is t.vars (update (update a x (some d)) y (some c)) → Q () t)
    (hthrown : T.Throws → ∀ (t : Results V E) b, b none = none → Holding Is t.vars b → R t) :
    wp (swap T x y) Q R T.Throws s := by
  have hconstructs : T.Throws → T.triviallyDestructible = true ∨ T.NoThrow .move := fun h =>
    (hsafe h).imp_left And.left
  have hassigns : T.Throws → T.nothrowMoveAssignable = true ∨ T.NoThrow .move := fun h =>
    (hsafe h).imp_left And.right
  obtain ⟨vars, n⟩ := s
  obtain ⟨_, hvarx, rfl⟩ := hs.storage hx
  obtain ⟨_, hvary, rfl⟩ := hs.storage hy
  unfold swap
  rw [wp_noexcept, wp_bind, wp_hasValue hvarx, wp_bind, wp_hasValue hvary]
  by_cases hsame : c.isLeft = d.isLeft
  · cases c with
    | inl v =>
      cases d with
      | inr f => cases hsame
      | inl w =>
        show wp (value x >>= _) Q _ _ _
        rw [wp_bind, wp_value hvarx, wp_bind, wp_value hvary, wp_bind]
        exact wp_operation (fun _ => hdone _ ((hs.set rfl).set rfl)) fun h =>
          of_either ⟨_, _, h⟩ (hthrown ⟨_, _, h⟩ _ a hlocal hs)
    | inr e =>
      cases d with
      | inl w => cases hsame
      | inr f =>
        show wp (error x >>= _) Q _ _ _
        rw [wp_bind, wp_error hvarx, wp_bind, wp_error hvary, wp_bind]
        exact wp_operation (fun _ => hdone _ ((hs.set rfl).set rfl)) fun h =>
          of_either ⟨_, _, h⟩ (hthrown ⟨_, _, h⟩ _ a hlocal hs)
  · have hxy : x ≠ y := by
      rintro rfl
      rw [hx] at hy
      cases hy
      exact hsame rfl
    have hdiffer : ¬(c.isLeft == d.isLeft) = true := by
      rw [beq_iff_eq]
      exact hsame
    rw [if_neg hdiffer]
    refine wp_exchange Is T.moved (fun x r => constructFrom T x (.named true r)) (moveAssign T)
      (endScope T) (fun hs hx hr hdone hthrown =>
        wp_constructFrom hs hx ⟨_, hr, rfl⟩ hconstructs hdone hthrown)
      (fun {_ a x _ c _ _ _} hs hx hr hdone hthrown =>
        wp_noexceptAssign (r := .named true _) hs hx ⟨_, hr, rfl⟩ hassigns hdone fun h t ht =>
          hthrown h t c ?_)
      (fun {s _ _ _ _ _} hs hx hdone => ?_) hs hlocal hx hy hxy hdone fun h t b hb ht =>
        of_either h (hthrown h t b hb ht)
    · rw [update_eq_self_iff.mpr hx.symm]
      exact ht
    · obtain ⟨_, hvar, rfl⟩ := hs.storage hx
      exact (wp_endScope hvar).mpr (hdone _ hs.drop)

end Functions

end ResultStorage

/-! ### Statements -/

namespace ResultStmt

open Function Passed ResultStorage

/-- What a statement does to plain values. -/
def effect (T : ResultTypes V E) (a : Option ℕ → Option (V ⊕ E)) :
    ResultStmt V E → Option ℕ → Option (V ⊕ E)
  | initValue x _ v => update a (some x) (some (.inl v))
  | initError x _ e => update a (some x) (some (.inr e))
  | initFailure x _ e => update a (some x) (some (.inr e))
  | initCopy x r => update a (some x) (a (some r))
  | initMove x r => update (update a (some x) (a (some r))) (some r) ((a (some r)).map T.moved)
  | initOther x _ c => update a (some x) (some c)
  | assignValue x _ v => update a (some x) (some (.inl v))
  | assignError x _ e => update a (some x) (some (.inr e))
  | assignCopy x r => update a (some x) (a (some r))
  | assignMove x r => update (update a (some x) (a (some r))) (some r) ((a (some r)).map T.moved)
  | assignOther x _ _ c => update a (some x) (some c)
  | swap x y => update (update a (some x) (a (some y))) (some y) (a (some x))
  | read _ => a
  | endScope x => update a (some x) none

def meaning (T : ResultTypes V E) (a : Option ℕ → Option (V ⊕ E)) (c : ResultStmt V E) :
    Option ℕ → Option (V ⊕ E) :=
  if Store.possible c.uses c.declares a then c.effect T a else a

/-- Between statements the results in scope hold the contents `a`. -/
structure Holds (s : Results V E) (a : Option ℕ → Option (V ⊕ E)) : Prop where
  local_gone : a none = none
  holding : Holding Is s.vars a

section Effect

variable {T : ResultTypes V E} {a : Option ℕ → Option (V ⊕ E)} {s : Results V E}

/-- The local of `swap` is gone after the statement. -/
theorem effect_none (c : ResultStmt V E) : c.effect T a none = a none := by
  cases c <;> simp [effect]

theorem meaning_none (c : ResultStmt V E) : c.meaning T a none = a none := by
  unfold meaning
  split_ifs
  · exact c.effect_none
  · rfl

/-- The members that a statement needs are safe, should anything be thrown. -/
def Guarded (T : ResultTypes V E) (c : ResultStmt V E) : Prop :=
  T.Throws → ∀ m ∈ c.member, m.Safe T.toResultSpec

theorem wp_body (hs : Holds s a) {c : ResultStmt V E} (hT : c.Guarded T)
    (h : Store.possible c.uses c.declares a = true) :
    wp (c.body T) (fun _ t => Holding Is t.vars (c.effect T a))
      (fun t => T.Throws ∧ ∃ b, Holds t b) T.Throws s := by
  obtain ⟨hlocal, hs⟩ := hs
  have hkept : T.Throws → ∀ t : Results V E, Holding Is t.vars a → T.Throws ∧ ∃ b, Holds t b :=
    fun hthrows t ht => ⟨hthrows, a, hlocal, ht⟩
  have hthere : ∀ {x}, some x ∈ c.uses → ∃ d, a (some x) = some d := uses_some h
  cases c with
  | initValue x source v =>
    show wp (operation _ _ >>= _) _ _ _ _
    rw [wp_bind]
    exact wp_operation (fun _ => hs.set rfl) fun hthrows => hkept ⟨_, _, hthrows⟩ _ hs
  | initError x source e =>
    show wp (operation _ _ >>= _) _ _ _ _
    rw [wp_bind]
    exact wp_operation (fun _ => hs.set rfl) fun hthrows => hkept ⟨_, _, hthrows⟩ _ hs
  | initFailure x source e =>
    show wp (noexcept _ (operation _ _ >>= _)) _ _ _ _
    rw [wp_noexcept, wp_bind]
    exact wp_operation (fun _ => hs.set rfl) fun hthrows =>
      of_either ⟨_, _, hthrows⟩ (hkept ⟨_, _, hthrows⟩ _ hs)
  | initCopy x r =>
    obtain ⟨v, hv⟩ := hthere (List.mem_singleton_self _)
    refine wp_constructFrom hs (declares_none h) ⟨_, hv, rfl⟩ (fun hthrows =>
      hT hthrows _ rfl) (fun t ht => ?_) hkept
    rw [effect, hv]
    exact ht
  | initMove x r =>
    obtain ⟨v, hv⟩ := hthere (List.mem_singleton_self _)
    refine wp_constructFrom hs (declares_none h) ⟨_, hv, rfl⟩ (fun hthrows =>
      hT hthrows _ rfl) (fun t ht => ?_) hkept
    rw [effect, hv]
    exact ht
  | initOther x source d =>
    exact wp_constructFrom hs (declares_none h) rfl (fun hthrows => hT hthrows _ rfl)
      (fun t ht => ht) hkept
  | assignValue x source v =>
    obtain ⟨w, hw⟩ := hthere (List.mem_singleton_self _)
    exact wp_assignValue hs hw (fun hthrows => hT hthrows _ rfl) (fun t ht => ht) hkept
  | assignError x source e =>
    obtain ⟨w, hw⟩ := hthere (List.mem_singleton_self _)
    exact wp_assignError hs hw (fun hthrows => hT hthrows _ rfl) (fun t ht => ht) hkept
  | assignCopy x r =>
    obtain ⟨v, hv⟩ := hthere List.mem_cons_self
    obtain ⟨w, hw⟩ := hthere (List.mem_cons_of_mem _ (List.mem_singleton_self _))
    refine wp_assignFromResult hs hv ⟨_, hw, rfl⟩ (fun t ht => ?_) hkept
      fun t alt hthrows => ?_
    · rw [effect, hw]
      exact ht
    · exact absurd hthrows (ResultTypes.not_throws (hT ⟨_, _, hthrows⟩ _ rfl alt))
  | assignMove x r =>
    obtain ⟨v, hv⟩ := hthere List.mem_cons_self
    obtain ⟨w, hw⟩ := hthere (List.mem_cons_of_mem _ (List.mem_singleton_self _))
    refine wp_noexceptAssign hs hv ⟨_, hw, rfl⟩ (fun hthrows => hT hthrows _ rfl)
      (fun t ht => ?_) hkept
    rw [effect, hw]
    exact ht
  | assignOther x source constructed d =>
    obtain ⟨v, hv⟩ := hthere (List.mem_singleton_self _)
    exact wp_noexceptAssign hs hv rfl (fun hthrows => hT hthrows _ rfl) (fun t ht => ht) hkept
  | swap x y =>
    obtain ⟨v, hv⟩ := hthere List.mem_cons_self
    obtain ⟨w, hw⟩ := hthere (List.mem_cons_of_mem _ (List.mem_singleton_self _))
    refine wp_swap hs hlocal hv hw (fun hthrows => hT hthrows _ rfl) (fun t ht => ?_)
      fun hthrows t b hb ht => ⟨hthrows, b, hb, ht⟩
    rw [effect, hv, hw]
    exact ht
  | read x =>
    obtain ⟨v, hv⟩ := hthere (List.mem_singleton_self _)
    obtain ⟨_, hvar, rfl⟩ := hs.storage hv
    exact (wp_read hvar).mpr hs
  | endScope x =>
    obtain ⟨v, hv⟩ := hthere (List.mem_singleton_self _)
    obtain ⟨_, hvar, rfl⟩ := hs.storage hv
    exact (wp_endScope hvar).mpr hs.drop

theorem Holds.wp_exec (hs : Holds s a) {c : ResultStmt V E} (hT : c.Guarded T) :
    wp (c.exec T) (fun _ t => Holds t (c.meaning T a)) (fun t => T.Throws ∧ ∃ b, Holds t b)
      T.Throws s := by
  have hlocal := (@meaning_none V E T a c).trans hs.local_gone
  unfold exec
  refine wp_onlyIf (fun h => ?_) fun h => ⟨hlocal, ?_⟩
  · rw [hs.holding.possible_eq] at h
    refine wp_mono (wp_body hs hT h) (fun _ t ht => ⟨hlocal, ?_⟩) (fun _ => id) id
    rw [meaning, if_pos h]
    exact ht
  · rw [hs.holding.possible_eq] at h
    rw [meaning, h]
    exact hs.holding

theorem holds_empty : Holds (Store.empty : Results V E) fun _ => none := ⟨rfl, Store.holding_empty⟩

end Effect

end ResultStmt

open ResultStmt

/-- Types with these promises whose operations throw when they may, but only as the `k`-th one. -/
def ResultSpec.failing (s : ResultSpec) (k : ℕ) : ResultTypes V E where
  toResultSpec := s
  throws i p := decide (i = k) && s.mayThrow p.1 p.2
  declared i alt op h := by
    rw [Bool.and_eq_true] at h
    exact h.2
  movedValue := id
  movedError := id

theorem ResultSpec.failing_throws (s : ResultSpec) (k : ℕ) {alt : Alternative} {op : ObjectOp}
    (h : s.mayThrow alt op = true) : (s.failing k : ResultTypes V E).throws k (alt, op) = true := by
  show (decide (k = k) && s.mayThrow alt op) = true
  rw [h, decide_eq_true rfl]
  rfl

namespace ResultStorage

open Function Passed

variable {T : ResultTypes V E} {vars : Option ℕ → Option (ResultAlt V E)} {n : ℕ}
  {x : Option ℕ} {r : Passed (V ⊕ E)} {c d : V ⊕ E}

theorem hasValue_unset {live : Option (V ⊕ E)} (hx : vars x = some ⟨live, none⟩) :
    hasValue x ⟨vars, n⟩ = .undefined .indeterminate := (bind_done (get_done hx)).trans rfl

/-- The destructor of the storage reads the flag that is not set. -/
theorem constructFrom_undefined (htrivial : T.triviallyDestructible = false)
    (hr : r.Given Is vars c) (hnames : ¬r.Names x)
    (h : T.throws n (.of c, r.ctor) = true) :
    constructFrom T x r ⟨vars, n⟩ = .undefined .indeterminate := by
  have hthrown : constructFromResult T x r ⟨update vars x (some ⟨none, none⟩), n⟩ =
      .thrown ⟨update vars x (some ⟨none, none⟩), n + 1⟩ := by
    apply thrown_of_wp
    refine wp_constructFromResult (hr.update hnames _) (update_self x _ _) (Or.inr rfl)
      (fun hno => ?_) fun _ => by rw [update_idem]
    rw [h] at hno
    cases hno
  have hdestroy : destroy T x ⟨update vars x (some ⟨none, none⟩), n + 1⟩ =
      .undefined .indeterminate := by
    unfold destroy
    rw [htrivial]
    exact bind_undefined (hasValue_unset (update_self x _ _))
  have hset : (set x ⟨none, none⟩ : ResultAct V E Unit) ⟨vars, n⟩ =
      .done () ⟨update vars x (some ⟨none, none⟩), n⟩ := rfl
  unfold constructFrom
  rw [bind_done hset]
  exact unwinding_thrown hthrown (bind_undefined hdestroy)

theorem read_emptied (hx : vars x = some (T.emptied c)) :
    read x ⟨vars, n⟩ = .undefined .notAlive := by
  obtain ⟨b, hb⟩ : ∃ b, T.emptied c = ⟨none, some b⟩ := by
    unfold ResultTypes.emptied ResultTypes.destroyed
    cases T.triviallyDestructible
    · exact ⟨false, rfl⟩
    · exact ⟨c.isLeft, rfl⟩
  rw [hb] at hx
  have hflag : hasValue x ⟨vars, n⟩ = .done b ⟨vars, n⟩ := (bind_done (get_done hx)).trans rfl
  apply (bind_done hflag).trans
  cases b with
  | true => exact bind_undefined ((bind_done (get_done hx)).trans rfl)
  | false => exact bind_undefined ((bind_done (get_done hx)).trans rfl)

/-- The old object is gone, and the new one is not there. -/
theorem assignFromResult_thrown (hx : vars x = some (.of c)) (hr : r.Given Is vars d)
    (hdiffer : c.isLeft ≠ d.isLeft) (h : T.throws n (.of d, r.ctor) = true) :
    assignFromResult T x r ⟨vars, n⟩ = .thrown ⟨update vars x (some (T.emptied c)), n + 1⟩ := by
  apply thrown_of_wp
  unfold assignFromResult
  rw [wp_bind, wp_hasValue hx, wp_bind, wp_hasValueOf hr]
  have hne : (c.isLeft != d.isLeft) = true := by
    rw [bne_iff_ne]
    exact hdiffer
  rw [if_pos hne]
  refine wp_rebuild hx hr (not_names hx hr hdiffer) (fun hno => ?_) fun _ => rfl
  rw [h] at hno
  cases hno

end ResultStorage

namespace ResultStmt

open Function Passed ResultStorage

def Offered (members : Set ResultMember) (c : ResultStmt V E) : Prop := ∀ m ∈ c.member, m ∈ members

/-- No program over the members does anything undefined, whatever types with the promises `s` do. -/
def Defined (V E : Type) (s : ResultSpec) (members : Set ResultMember) : Prop :=
  ∀ T : ResultTypes V E, T.toResultSpec = s → ∀ cs : List (ResultStmt V E),
    (∀ c ∈ cs, c.Offered members) → ∀ e : Misuse, runAll (exec T) cs Store.empty ≠ .undefined e

def init (x : ℕ) : V ⊕ E → ResultStmt V E
  | .inl v => initValue x 0 v
  | .inr e => initError x 0 e

/-- The results `0` and `1` have been declared. -/
def pair (c d : V ⊕ E) : Results V E :=
  ⟨update (update (fun _ => none) (some 0) (some (.of c))) (some 1) (some (.of d)), 2⟩

theorem exec_possible {T : ResultTypes V E} {c : ResultStmt V E} {s : Results V E}
    (h : Store.possible c.uses c.declares s.vars = true) : exec T c s = c.body T s := if_pos h

theorem exec_init {T : ResultTypes V E} {x : ℕ} {c : V ⊕ E} {s : Results V E}
    (hx : s.vars (some x) = none) (h : T.throws s.ops (.of c, .convert 0) = false) :
    exec T (init x c) s = .done () ⟨update s.vars (some x) (some (.of c)), s.ops + 1⟩ := by
  have hpossible : Store.possible [] (some (some x)) s.vars = true := by
    simp [Store.possible, hx]
  have hquiet : operation T.throws (Alternative.of c, ObjectOp.convert 0) s =
      .done () { s with ops := s.ops + 1 } := by
    unfold operation
    rw [h]
    rfl
  cases c with
  | inl v => exact (exec_possible (c := initValue x 0 v) hpossible).trans (bind_done hquiet)
  | inr e => exact (exec_possible (c := initError x 0 e) hpossible).trans (bind_done hquiet)

theorem runAll_pair {s : ResultSpec} {k : ℕ} (hk : 2 ≤ k) (c d : V ⊕ E)
    (cs : List (ResultStmt V E)) :
    runAll (exec (s.failing k)) (init 0 c :: init 1 d :: cs) Store.empty =
      runAll (exec (s.failing k)) cs (pair c d) := by
  have hquiet : ∀ i < 2, ∀ p, (s.failing k : ResultTypes V E).throws i p = false := by
    intro i hi p
    show (decide (i = k) && _) = false
    rw [decide_eq_false (by omega)]
    rfl
  rw [runAll_done (exec_init rfl (hquiet 0 (by decide) _)),
    runAll_done (exec_init rfl (hquiet 1 (by decide) _))]
  rfl

section Grief

variable {s : ResultSpec} {members : Set ResultMember} {c : ResultStmt V E} {r : Passed (V ⊕ E)}
  {d e : V ⊕ E}

theorem offered_init (x : ℕ) (d : V ⊕ E) : (init x d).Offered members := by
  cases d <;> exact nofun

/-- A statement after the two declarations that does something undefined. -/
theorem Defined.not_undefined (h : Defined V E s members) (hc : c.Offered members) {k : ℕ}
    (hk : 2 ≤ k) (u : Misuse) : exec (s.failing k) c (pair d e) ≠ .undefined u := by
  intro hexec
  refine h (s.failing k) rfl [init 0 d, init 1 e, c] (fun c' hc' => ?_) u ?_
  · simp only [List.mem_cons, List.not_mem_nil, or_false] at hc'
    rcases hc' with rfl | rfl | rfl
    · exact offered_init _ _
    · exact offered_init _ _
    · exact hc
  · rw [runAll_pair hk]
    exact runAll_undefined hexec

/-- A statement after the two declarations that empties a result. -/
theorem Defined.not_emptied (h : Defined V E s members) (hc : c.Offered members) {k : ℕ}
    (hk : 2 ≤ k) {t : Results V E} {x : ℕ} (hexec : exec (s.failing k) c (pair d e) = .thrown t)
    (d' : V ⊕ E) : t.vars (some x) ≠ some ((s.failing k : ResultTypes V E).emptied d') := by
  intro hx
  refine h (s.failing k) rfl [init 0 d, init 1 e, c, read x] (fun c' hc' => ?_) .notAlive ?_
  · simp only [List.mem_cons, List.not_mem_nil, or_false] at hc'
    rcases hc' with rfl | rfl | rfl | rfl
    · exact offered_init _ _
    · exact offered_init _ _
    · exact hc
    · exact nofun
  · rw [runAll_pair hk, runAll_thrown hexec]
    apply runAll_undefined
    have hpossible : Store.possible [some x] none t.vars = true := by
      simp [Store.possible, hx]
    exact (exec_possible (c := read x) hpossible).trans (read_emptied hx)

theorem exists_differs (V E : Type) [Inhabited V] [Inhabited E] (alt : Alternative) :
    ∃ d e : V ⊕ E, Alternative.of e = alt ∧ d.isLeft ≠ e.isLeft := by
  cases alt with
  | value => exact ⟨.inr default, .inl default, rfl, by simp⟩
  | error => exact ⟨.inl default, .inr default, rfl, by simp⟩

variable [Inhabited V] [Inhabited E]

/-- A declaration of the third result. -/
theorem Defined.declares (h : Defined V E s members) {op : ObjectOp} {c : V ⊕ E → ResultStmt V E}
    {r : V ⊕ E → Passed (V ⊕ E)} (hc : ∀ d, (c d).Offered members)
    (hexec : ∀ (T : ResultTypes V E) d,
      exec T (c d) (pair d d) = constructFrom T (some 2) (r d) (pair d d))
    (hop : ∀ d, (r d).ctor = op) (hr : ∀ d, (r d).Given Is (pair d d).vars d) :
    s.triviallyDestructible = true ∨ s.NoThrow op := by
  refine or_iff_not_imp_left.mpr fun htrivial alt => ?_
  obtain ⟨_, d, rfl, _⟩ := exists_differs V E alt
  rw [← Bool.not_eq_true]
  intro hthrows
  rw [← hop d] at hthrows
  refine h.not_undefined (hc d) (d := d) (e := d) (k := 2) (by decide) .indeterminate ?_
  rw [hexec]
  exact constructFrom_undefined ((Bool.not_eq_true _).mp htrivial) (hr d) ((hr d).not_names rfl)
    (s.failing_throws 2 hthrows)

/-- An assignment to the first result. -/
theorem Defined.assigns (h : Defined V E s members) {promised : Bool} {op : ObjectOp}
    {c : V ⊕ E → ResultStmt V E} {r : V ⊕ E → Passed (V ⊕ E)} (hc : ∀ d, (c d).Offered members)
    (hexec : ∀ k d e, exec (s.failing k) (c e) (pair d e) =
      (assignFromResult (s.failing k) (some 0) (r e)).noexcept promised (pair d e))
    (hop : ∀ d, (r d).ctor = op) (hr : ∀ d e, (r e).Given Is (pair d e).vars e) :
    promised = true ∨ s.NoThrow op := by
  refine or_iff_not_imp_left.mpr fun hpromised alt => ?_
  obtain ⟨d, e, rfl, hdiffer⟩ := exists_differs V E alt
  rw [← Bool.not_eq_true]
  intro hthrows
  rw [← hop e] at hthrows
  have hthrown := hexec 2 d e
  rw [(Bool.not_eq_true _).mp hpromised, noexcept_false] at hthrown
  exact h.not_emptied (hc e) (by decide) (hthrown.trans (assignFromResult_thrown rfl (hr d e)
    hdiffer (s.failing_throws 2 hthrows))) d (update_self (some 0) _ _)

end Grief

end ResultStmt

end Pimc
