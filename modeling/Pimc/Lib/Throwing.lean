import Mathlib.Data.Nat.Notation
import Mathlib.Logic.Function.Basic

/-!
# Actions that may throw

Actions over a state that return, throw an exception, end the program, or do
what the language leaves undefined. `wp` is the weakest condition under which
an action does nothing undefined and ends as asked. The second half is a store of variables whose
objects are built and taken apart by operations that may throw.
-/

namespace Pimc.Lib

inductive Ran (ε σ α : Type) where
  | done (a : α) (s : σ)
  | thrown (s : σ)
  | terminated
  | undefined (e : ε)
  deriving Repr, DecidableEq

def Act (ε σ α : Type) := σ → Ran ε σ α

namespace Act

variable {ε σ τ α β γ : Type}

def ret (a : α) : Act ε σ α := fun s => .done a s

def bind (m : Act ε σ α) (k : α → Act ε σ β) : Act ε σ β := fun s =>
  match m s with
  | .done a t => k a t
  | .thrown t => .thrown t
  | .terminated => .terminated
  | .undefined e => .undefined e

instance : Monad (Act ε σ) where
  pure := ret
  bind := bind

def update (f : σ → σ) : Act ε σ Unit := fun s => .done () (f s)

def undefined (e : ε) : Act ε σ α := fun _ => .undefined e

/-- An exception that would leave a `noexcept` function ends the program. -/
def noexcept (promised : Bool) (m : Act ε σ α) : Act ε σ α := fun s =>
  match m s with
  | .thrown t => if promised then .terminated else .thrown t
  | r => r

/-- An exception that passes runs the destructors of `cleanup`. -/
def unwinding (m : Act ε σ α) (cleanup : Act ε σ Unit) : Act ε σ α := fun s =>
  match m s with
  | .thrown t =>
    match cleanup t with
    | .done _ u => .thrown u
    | .thrown _ => .terminated
    | .terminated => .terminated
    | .undefined e => .undefined e
  | r => r

/-- A scope that is left with the destructors of `cleanup`, by an exception or not. -/
def inScope (m : Act ε σ α) (cleanup : Act ε σ Unit) : Act ε σ α := do
  let a ← m.unwinding cleanup
  cleanup
  pure a

/-- What is handled goes no further. -/
def handled (m : Act ε σ Unit) : Act ε σ Unit := fun s =>
  match m s with
  | .thrown t => .done () t
  | r => r

/-- A step that is passed over where it is not possible. -/
def onlyIf (possible : σ → Bool) (m : Act ε σ Unit) : Act ε σ Unit := fun s =>
  if possible s then m s else .done () s

def runAll (exec : γ → Act ε σ Unit) : List γ → Act ε σ Unit
  | [] => pure ()
  | c :: cs => do
    (exec c).handled
    runAll exec cs

/-! ### Runs -/

section Runs

variable {m : Act ε σ α} {k : α → Act ε σ β} {s t : σ} {a : α} {e : ε}

theorem bind_done (h : m s = .done a t) : (m >>= k) s = k a t := by
  show bind m k s = k a t
  unfold bind
  rw [h]

theorem bind_undefined (h : m s = .undefined e) : (m >>= k) s = .undefined e := by
  show bind m k s = .undefined e
  unfold bind
  rw [h]

theorem unwinding_thrown {cleanup : Act ε σ Unit} (h : m s = .thrown t)
    (hcleanup : cleanup t = .undefined e) : m.unwinding cleanup s = .undefined e := by
  unfold unwinding
  rw [h]
  dsimp only
  rw [hcleanup]

theorem noexcept_false (m : Act ε σ α) : m.noexcept false = m := by
  funext s
  unfold noexcept
  cases m s <;> rfl

theorem runAll_done {exec : γ → Act ε σ Unit} {c : γ} {cs : List γ} (h : exec c s = .done () t) :
    runAll exec (c :: cs) s = runAll exec cs t := by
  apply bind_done
  unfold handled
  rw [h]

theorem runAll_thrown {exec : γ → Act ε σ Unit} {c : γ} {cs : List γ} (h : exec c s = .thrown t) :
    runAll exec (c :: cs) s = runAll exec cs t := by
  apply bind_done
  unfold handled
  rw [h]

theorem runAll_undefined {exec : γ → Act ε σ Unit} {c : γ} {cs : List γ}
    (h : exec c s = .undefined e) : runAll exec (c :: cs) s = .undefined e := by
  apply bind_undefined
  unfold handled
  rw [h]

end Runs

/-! ### Weakest preconditions -/

/-- `m` does nothing undefined, `Q` holds when it returns, `R` when it throws, and it ends the
program only if `H`. -/
def wp (m : Act ε σ α) (Q : α → σ → Prop) (R : σ → Prop) (H : Prop) (s : σ) : Prop :=
  match m s with
  | .done a t => Q a t
  | .thrown t => R t
  | .terminated => H
  | .undefined _ => False

section Rules

variable {Q Q' : α → σ → Prop} {R R' : σ → Prop} {H H' : Prop} {s : σ} {m : Act ε σ α}

@[simp] theorem wp_pure (a : α) : wp (pure a : Act ε σ α) Q R H = Q a := rfl

@[simp] theorem wp_bind (k : α → Act ε σ β) (Q : β → σ → Prop) :
    wp (m >>= k) Q R H = wp m (fun a => wp (k a) Q R H) R H := by
  funext s
  show wp (bind m k) Q R H s = _
  unfold wp bind
  cases m s <;> rfl

@[simp] theorem wp_unwinding (cleanup : Act ε σ Unit) :
    wp (m.unwinding cleanup) Q R H = wp m Q (wp cleanup (fun _ => R) (fun _ => H) H) H := by
  funext s
  unfold wp unwinding
  cases m s with
  | thrown t =>
    dsimp only
    cases cleanup t <;> rfl
  | _ => rfl

@[simp] theorem wp_inScope (cleanup : Act ε σ Unit) : wp (m.inScope cleanup) Q R H =
    wp m (fun a => wp cleanup (fun _ => Q a) R H) (wp cleanup (fun _ => R) (fun _ => H) H) H := by
  unfold inScope
  simp only [wp_bind, wp_unwinding, wp_pure]

theorem wp_noexcept {promised : Bool} :
    wp (m.noexcept promised) Q R H = wp m Q (fun t => if promised then H else R t) H := by
  funext s
  unfold wp noexcept
  cases m s with
  | thrown t => cases promised <;> rfl
  | _ => rfl

theorem of_either {promised : Bool} {P : Prop} (hH : H) (hP : P) : if promised then H else P := by
  cases promised
  · exact hP
  · exact hH

theorem wp_handled {m : Act ε σ Unit} {Q : Unit → σ → Prop} :
    wp m.handled Q R H = wp m Q (Q ()) H := by
  funext s
  unfold wp handled
  cases m s <;> rfl

theorem wp_onlyIf {possible : σ → Bool} {m : Act ε σ Unit} {Q : Unit → σ → Prop}
    (hpossible : possible s = true → wp m Q R H s) (hnot : possible s = false → Q () s) :
    wp (m.onlyIf possible) Q R H s := by
  unfold wp onlyIf
  cases h : possible s with
  | true => exact hpossible h
  | false => exact hnot h

theorem wp_mono (h : wp m Q R H s) (hQ : ∀ a t, Q a t → Q' a t) (hR : ∀ t, R t → R' t)
    (hH : H → H') : wp m Q' R' H' s := by
  unfold wp at h ⊢
  cases hm : m s with
  | done a t =>
    rw [hm] at h
    exact hQ a t h
  | thrown t =>
    rw [hm] at h
    exact hR t h
  | terminated =>
    rw [hm] at h
    exact hH h
  | undefined e =>
    rw [hm] at h
    exact h

/-- An action that neither returns nor ends the program throws. -/
theorem wp_throws (h : wp m (fun _ _ => False) R False s) : ∃ t, m s = .thrown t ∧ R t := by
  unfold wp at h
  cases hm : m s with
  | thrown t =>
    rw [hm] at h
    exact ⟨t, rfl, h⟩
  | _ =>
    rw [hm] at h
    exact h.elim

theorem thrown_of_wp {t : σ} (h : wp m (fun _ _ => False) (fun u => u = t) False s) :
    m s = .thrown t := by
  obtain ⟨_, hm, rfl⟩ := wp_throws h
  exact hm

/-- An action that neither throws nor ends the program returns. -/
theorem wp_returns (h : wp m Q (fun _ => False) False s) : ∃ a t, m s = .done a t ∧ Q a t := by
  unfold wp at h
  cases hm : m s with
  | done a t =>
    rw [hm] at h
    exact ⟨a, t, rfl, h⟩
  | _ =>
    rw [hm] at h
    exact h.elim

end Rules

/-- A run does what `f` does to the state that `rel` relates to the state of the run. -/
theorem wp_runAll {exec : γ → Act ε σ Unit} {rel : σ → τ → Prop} {f : τ → γ → τ} {H : Prop}
    {cs : List γ} (h : ∀ c ∈ cs, ∀ s a, rel s a →
      wp (exec c) (fun _ t => rel t (f a c)) (fun t => rel t (f a c)) H s)
    {s : σ} {a : τ} (hs : rel s a) :
    wp (runAll exec cs) (fun _ t => rel t (cs.foldl f a)) (fun _ => False) H s := by
  induction cs generalizing s a with
  | nil => exact hs
  | cons c cs ih =>
    rw [runAll, wp_bind, wp_handled]
    refine wp_mono (h c List.mem_cons_self s a hs) (fun _ t ht => ?_) (fun t ht => ?_) id
    · exact ih (fun d hd => h d (List.mem_cons_of_mem c hd)) ht
    · exact ih (fun d hd => h d (List.mem_cons_of_mem c hd)) ht

end Act

/-! ### Variables -/

/-- What goes wrong with the objects of a store: a flag is read before it is set, an object is used
outside its lifetime, an object is built over another one. -/
inductive Misuse where
  | indeterminate
  | notAlive
  | overwritten
  deriving Repr, DecidableEq

/-- The variables in scope, and how many operations of their types have begun. -/
structure Store (ι S : Type) where
  vars : ι → Option S
  ops : ℕ

namespace Store

open Act

variable {ι S Op : Type}

def empty : Store ι S := ⟨fun _ => none, 0⟩

def get (x : ι) : Act Misuse (Store ι S) S := fun s =>
  match s.vars x with
  | some a => .done a s
  | none => .undefined .notAlive

/-- An operation of a type, which throws when it is its turn to. -/
def operation (throws : ℕ → Op → Bool) (op : Op) : Act Misuse (Store ι S) Unit := fun s =>
  if throws s.ops op then .thrown { s with ops := s.ops + 1 }
  else .done () { s with ops := s.ops + 1 }

variable [DecidableEq ι]

def set (x : ι) (a : S) : Act Misuse (Store ι S) Unit :=
  update fun s => { s with vars := Function.update s.vars x (some a) }

def drop (x : ι) : Act Misuse (Store ι S) Unit :=
  update fun s => { s with vars := Function.update s.vars x none }

section Rules

variable {Q : Unit → Store ι S → Prop} {R : Store ι S → Prop} {H : Prop} {s : Store ι S} {x : ι}
  {a : S}

omit [DecidableEq ι] in
theorem wp_get {Q : S → Store ι S → Prop} (h : s.vars x = some a) :
    wp (get x) Q R H s ↔ Q a s := by
  unfold wp get
  rw [h]

omit [DecidableEq ι] in
theorem get_done (h : s.vars x = some a) : get x s = .done a s := by
  unfold get
  rw [h]

@[simp] theorem wp_set : wp (set x a) Q R H =
    fun s => Q () { s with vars := Function.update s.vars x (some a) } := rfl

@[simp] theorem wp_drop : wp (drop x) Q R H =
    fun s => Q () { s with vars := Function.update s.vars x none } := rfl

omit [DecidableEq ι] in
theorem wp_operation {throws : ℕ → Op → Bool} {op : Op}
    (hdone : throws s.ops op = false → Q () { s with ops := s.ops + 1 })
    (hthrown : throws s.ops op = true → R { s with ops := s.ops + 1 }) :
    wp (operation throws op) Q R H s := by
  unfold wp operation
  cases h : throws s.ops op with
  | true => exact hthrown h
  | false => exact hdone h

end Rules

/-! ### Storages and their contents

`rel` says which storages have which contents; `Holding` says so of all variables. -/

open Function

section Contents

variable {C : Type}

/-- The variables in scope are storages of the contents `a`. -/
def Holding (rel : S → C → Prop) (vars : ι → Option S) (a : ι → Option C) : Prop :=
  ∀ x, Option.Rel rel (vars x) (a x)

variable {rel : S → C → Prop} {vars : ι → Option S} {a : ι → Option C} {x y : ι} {c d : C}

namespace Holding

omit [DecidableEq ι] in
theorem storage (h : Holding rel vars a) (hx : a x = some c) : ∃ s, vars x = some s ∧ rel s c := by
  have hrel := h x
  rw [hx] at hrel
  cases hvar : vars x with
  | none =>
    rw [hvar] at hrel
    cases hrel
  | some s =>
    rw [hvar] at hrel
    cases hrel with
    | some hs => exact ⟨s, rfl, hs⟩

omit [DecidableEq ι] in
theorem absent (h : Holding rel vars a) (hx : a x = none) : vars x = none := by
  have hrel := h x
  rw [hx] at hrel
  cases hvar : vars x with
  | none => rfl
  | some s =>
    rw [hvar] at hrel
    cases hrel

theorem set (h : Holding rel vars a) {s : S} (hs : rel s c) :
    Holding rel (update vars x (some s)) (update a x (some c)) := by
  intro y
  by_cases hyx : y = x
  · subst hyx
    rw [update_self, update_self]
    exact .some hs
  · rw [update_of_ne hyx, update_of_ne hyx]
    exact h y

theorem drop (h : Holding rel vars a) : Holding rel (update vars x none) (update a x none) := by
  intro y
  by_cases hyx : y = x
  · subst hyx
    rw [update_self, update_self]
    exact .none
  · rw [update_of_ne hyx, update_of_ne hyx]
    exact h y

/-- A storage that takes the place of another one with the same contents. -/
theorem replace (h : Holding rel vars a) (hx : a x = some c) {s : S} (hs : rel s c) :
    Holding rel (update vars x (some s)) a := by
  have hsame : update a x (some c) = a := update_eq_self_iff.mpr hx.symm
  rw [← hsame]
  exact h.set hs

end Holding

omit [DecidableEq ι] in
theorem holding_empty : Holding rel (empty : Store ι S).vars fun _ => none := fun _ => .none

/-- The variables of `uses` are in scope, the declared one is not yet. -/
def possible (uses : List ι) (declares : Option ι) (vars : ι → Option S) : Bool :=
  uses.all (fun x => (vars x).isSome) && declares.all fun x => (vars x).isNone

section Possible

variable {uses : List ι} {declares : Option ι}

omit [DecidableEq ι] in
theorem Holding.possible_eq (h : Holding rel vars a) :
    possible uses declares vars = possible uses declares a := by
  have hsome : ∀ x, (vars x).isSome = (a x).isSome := by
    intro x
    cases hx : a x with
    | none => rw [h.absent hx]; rfl
    | some c =>
      obtain ⟨s, hvar, _⟩ := h.storage hx
      rw [hvar]
      rfl
  have hnone : ∀ x, (vars x).isNone = (a x).isNone := by
    intro x
    rw [← Option.not_isSome, ← Option.not_isSome, hsome]
  simp only [possible, hsome, hnone]

omit [DecidableEq ι] in
theorem uses_some (h : possible uses declares a = true) (hx : x ∈ uses) : ∃ c, a x = some c := by
  unfold possible at h
  rw [Bool.and_eq_true, List.all_eq_true] at h
  exact Option.isSome_iff_exists.mp (h.1 x hx)

omit [DecidableEq ι] in
theorem declares_none (h : possible uses (some x) a = true) : a x = none := by
  unfold possible at h
  rw [Bool.and_eq_true] at h
  exact Option.isNone_iff_eq_none.mp h.2

end Possible

/-- Two variables change places through a local, which is built from the first, and two
assignments. -/
theorem wp_exchange (rel : S → C → Prop) (leaves : C → C)
    (construct assign : ι → ι → Act Misuse (Store ι S) Unit)
    (finish : ι → Act Misuse (Store ι S) Unit) {H : Prop}
    (hconstruct : ∀ {s : Store ι S} {a : ι → Option C} {x r : ι} {c : C} {Q R},
      Holding rel s.vars a → a x = none → a r = some c →
      (∀ t : Store ι S, Holding rel t.vars (update (update a x (some c)) r (some (leaves c))) →
        Q () t) →
      (H → ∀ t : Store ι S, Holding rel t.vars a → R t) → wp (construct x r) Q R H s)
    (hassign : ∀ {s : Store ι S} {a : ι → Option C} {x r : ι} {c d : C} {Q R},
      Holding rel s.vars a → a x = some c → a r = some d →
      (∀ t : Store ι S, Holding rel t.vars (update (update a x (some d)) r (some (leaves d))) →
        Q () t) →
      (H → ∀ (t : Store ι S) e, Holding rel t.vars (update a x (some e)) → R t) →
      wp (assign x r) Q R H s)
    (hfinish : ∀ {s : Store ι S} {a : ι → Option C} {x : ι} {c : C} {Q R},
      Holding rel s.vars a → a x = some c →
      (∀ t : Store ι S, Holding rel t.vars (update a x none) → Q () t) → wp (finish x) Q R H s)
    {s : Store ι S} {tmp : ι} {Q : Unit → Store ι S → Prop} {R : Store ι S → Prop}
    (hs : Holding rel s.vars a) (htmp : a tmp = none) (hx : a x = some c) (hy : a y = some d)
    (hxy : x ≠ y)
    (hdone : ∀ t : Store ι S, Holding rel t.vars (update (update a x (some d)) y (some c)) →
      Q () t)
    (hthrown : H → ∀ (t : Store ι S) b, b tmp = none → Holding rel t.vars b → R t) :
    wp (do
      construct tmp x
      inScope (do
        assign x y
        assign y tmp) (finish tmp)) Q R H s := by
  have hxtmp : x ≠ tmp := by
    rintro rfl
    rw [htmp] at hx
    cases hx
  have hytmp : y ≠ tmp := by
    rintro rfl
    rw [htmp] at hy
    cases hy
  -- the local ends with each way out of the scope
  have hend : ∀ {P : Unit → Store ι S → Prop} {P' : Store ι S → Prop} {t : Store ι S}
      {b : ι → Option C} {e : C}, b tmp = none → (∀ u : Store ι S, Holding rel u.vars b → P () u) →
        Holding rel t.vars (update b tmp (some e)) → wp (finish tmp) P P' H t := by
    intro P P' t b e hb hP ht
    refine hfinish ht (update_self _ _ _) fun u hu => hP u ?_
    rw [update_idem, update_eq_self_iff.mpr hb.symm] at hu
    exact hu
  have hgone : ∀ e f, update (update a x e) y f tmp = none := by
    intro e f
    rw [update_of_ne hytmp.symm, update_of_ne hxtmp.symm, htmp]
  rw [wp_bind]
  refine hconstruct hs htmp hx (fun t ht => ?_) fun h t ht => hthrown h t a htmp ht
  rw [wp_inScope, wp_bind]
  refine hassign (c := leaves c) (d := d) ht (update_self _ _ _) ?_ (fun u hu => ?_)
    fun h u e hu => ?_
  · rw [update_of_ne hxy.symm, update_of_ne hytmp, hy]
  · -- the first variable has the contents of the second one, the local those of the first
    have hfirst : update (update (update (update a tmp (some c)) x (some (leaves c))) x (some d)) y
        (some (leaves d)) =
        update (update (update a x (some d)) y (some (leaves d))) tmp (some c) := by
      rw [update_idem, update_comm hxtmp.symm, update_comm hytmp.symm]
    rw [hfirst] at hu
    refine hassign (c := leaves d) (d := c) hu ?_ (update_self _ _ _) (fun v hv => ?_)
      fun h v e hv => ?_
    · rw [update_of_ne hytmp, update_self]
    · rw [update_comm hytmp.symm, update_idem, update_idem] at hv
      exact hend (hgone _ _) hdone hv
    · rw [update_comm hytmp.symm, update_idem] at hv
      exact hend (hgone _ _) (fun w hw => hthrown h w _ (hgone _ _) hw) hv
  · rw [update_idem, update_comm hxtmp.symm] at hu
    have hkept : update a x (some e) tmp = none := by rw [update_of_ne hxtmp.symm, htmp]
    exact hend hkept (fun w hw => hthrown h w _ hkept hw) hu

end Contents

end Store

end Pimc.Lib
