import Mathlib.Data.List.Basic
import Mathlib.Data.Nat.Notation

/-!
# Computations that go on after an error

A computation over a state reports its errors and goes on. It is clean when it
has reported nothing; the rules below take a clean run apart.
-/

namespace Pimc.Lib

def Logged (ε σ α : Type) : Type := σ → List ε × α × σ

namespace Logged

variable {ε σ α β τ : Type}

def quiet (a : α) : Logged ε σ α := fun s => ([], a, s)

def andThen (m : Logged ε σ α) (k : α → Logged ε σ β) : Logged ε σ β := fun s =>
  let first := m s
  let second := k first.2.1 first.2.2
  (first.1 ++ second.1, second.2)

instance : Monad (Logged ε σ) where
  pure := quiet
  bind := andThen

def current : Logged ε σ σ := fun s => ([], s, s)

def store (s : σ) : Logged ε σ Unit := fun _ => ([], (), s)

def adjust (f : σ → σ) : Logged ε σ Unit := fun s => ([], (), f s)

def report (e : ε) : Logged ε σ Unit := fun s => ([e], (), s)

def reportAll (es : List ε) : Logged ε σ Unit := fun s => (es, (), s)

def reportIf (p : Bool) (e : ε) : Logged ε σ Unit := if p then report e else quiet ()

/-- The value of a result; an error is reported. -/
def chk (r : Except ε α) : Logged ε σ (Option α) :=
  match r with
  | .ok a => pure (some a)
  | .error e => fun s => ([e], none, s)

/-- `if (o) f(o.value());` -/
def ifSome (o : Option α) (f : α → Logged ε σ Unit) : Logged ε σ Unit :=
  match o with
  | some a => f a
  | none => pure ()

/-- Runs on a part of the state. -/
def zoom (view : σ → τ) (update : σ → τ → σ) (m : Logged ε τ α) : Logged ε σ α := fun s =>
  let r := m (view s)
  (r.1, r.2.1, update s r.2.2)

end Logged

open Logged

variable {ε σ α β τ : Type}

/-- `m` reports nothing in `s`, returns `a` and leaves `s'`. -/
def Clean (m : Logged ε σ α) (s : σ) (a : α) (s' : σ) : Prop := m s = ([], a, s')

theorem errors_eq_nil_iff {m : Logged ε σ Unit} {s : σ} : (m s).1 = [] ↔ ∃ s', Clean m s () s' := by
  apply Iff.intro
  · intro h
    exact ⟨(m s).2.2, Prod.ext h rfl⟩
  · intro h'
    obtain ⟨s', hclean⟩ := h'
    exact congrArg Prod.fst hclean

/-- A result that is given only when nothing has been reported. -/
theorem given_iff_clean {γ : Type} {m : Logged ε σ Unit} {s : σ} {failed c : γ} {g : σ → γ}
    (hfailed : failed ≠ c) :
    (if (m s).1 ≠ [] then failed else g (m s).2.2) = c ↔ ∃ s', Clean m s () s' ∧ g s' = c := by
  split_ifs with herrors
  · apply iff_of_false hfailed
    intro h
    obtain ⟨s', hclean, _⟩ := h
    exact herrors (errors_eq_nil_iff.mpr ⟨s', hclean⟩)
  · obtain ⟨s', hclean⟩ := errors_eq_nil_iff.mp (not_not.mp herrors)
    have hfinal : (m s).2.2 = s' := congrArg (fun r => r.2.2) hclean
    rw [hfinal]
    apply Iff.intro
    · exact fun h => ⟨s', hclean, h⟩
    · intro h
      obtain ⟨s'', hclean', hg⟩ := h
      have hsame : s'' = s' := congrArg (fun r => r.2.2) (hclean'.symm.trans hclean)
      rw [← hsame]
      exact hg

theorem clean_pure {a b : α} {s s' : σ} :
    Clean (pure a : Logged ε σ α) s b s' ↔ b = a ∧ s' = s := by
  show (([], a, s) : List ε × α × σ) = ([], b, s') ↔ b = a ∧ s' = s
  rw [Prod.mk.injEq, Prod.mk.injEq]
  tauto

theorem clean_bind {m : Logged ε σ α} {k : α → Logged ε σ β} {s s'' : σ} {b : β} :
    Clean (m >>= k) s b s'' ↔ ∃ a s', Clean m s a s' ∧ Clean (k a) s' b s'' := by
  have hrun : (m >>= k) s = ((m s).1 ++ (k (m s).2.1 (m s).2.2).1, (k (m s).2.1 (m s).2.2).2) := rfl
  unfold Clean
  rw [hrun]
  apply Iff.intro
  · intro h
    obtain ⟨herrors, hvalue⟩ := Prod.mk.inj h
    obtain ⟨hfirst, hsecond⟩ := List.append_eq_nil_iff.mp herrors
    exact ⟨_, _, Prod.ext hfirst rfl, Prod.ext hsecond hvalue⟩
  · intro h'
    obtain ⟨a, s', hm, hk⟩ := h'
    rw [hm]
    show ([] ++ (k a s').1, (k a s').2) = _
    rw [hk]
    rfl

theorem clean_current {s s' t : σ} : Clean (current : Logged ε σ σ) s t s' ↔ t = s ∧ s' = s := by
  show (([], s, s) : List ε × σ × σ) = ([], t, s') ↔ t = s ∧ s' = s
  rw [Prod.mk.injEq, Prod.mk.injEq]
  tauto

theorem clean_store {s s' t : σ} {u : Unit} : Clean (store t : Logged ε σ Unit) s u s' ↔ s' = t := by
  show (([], (), t) : List ε × Unit × σ) = ([], u, s') ↔ s' = t
  rw [Prod.mk.injEq, Prod.mk.injEq]
  tauto

theorem clean_adjust {f : σ → σ} {s s' : σ} {u : Unit} :
    Clean (adjust f : Logged ε σ Unit) s u s' ↔ s' = f s := by
  show (([], (), f s) : List ε × Unit × σ) = ([], u, s') ↔ s' = f s
  rw [Prod.mk.injEq, Prod.mk.injEq]
  tauto

theorem clean_report {e : ε} {s s' : σ} {u : Unit} : ¬ Clean (report e) s u s' := by
  intro h
  cases (Prod.mk.inj h).1

theorem clean_reportIf {p : Bool} {e : ε} {s s' : σ} {u : Unit} :
    Clean (reportIf p e) s u s' ↔ p = false ∧ s' = s := by
  cases p with
  | true => simp [reportIf, clean_report]
  | false =>
    have h : Clean (reportIf false e) s u s' ↔ u = () ∧ s' = s := clean_pure
    rw [h]
    tauto

theorem clean_reportAll {es : List ε} {s s' : σ} {u : Unit} :
    Clean (reportAll es) s u s' ↔ es = [] ∧ s' = s := by
  show (es, (), s) = ([], u, s') ↔ es = [] ∧ s' = s
  rw [Prod.mk.injEq, Prod.mk.injEq]
  tauto

theorem clean_chk {r : Except ε α} {o : Option α} {s s' : σ} :
    Clean (chk r) s o s' ↔ ∃ a, r = .ok a ∧ o = some a ∧ s' = s := by
  cases r with
  | ok a =>
    show Clean (pure (some a) : Logged ε σ (Option α)) s o s' ↔ _
    rw [clean_pure]
    apply Iff.intro
    · intro h'
      obtain ⟨ho, hs⟩ := h'
      exact ⟨a, rfl, ho, hs⟩
    · intro h'
      obtain ⟨b, hb, ho, hs⟩ := h'
      cases hb
      exact ⟨ho, hs⟩
  | error e =>
    apply Iff.intro
    · intro h
      cases (Prod.mk.inj h).1
    · intro h'
      obtain ⟨a, ha, _⟩ := h'
      cases ha

theorem clean_chk_bind {r : Except ε α} {k : Option α → Logged ε σ β} {s s' : σ} {b : β} :
    Clean (chk r >>= k) s b s' ↔ ∃ a, r = .ok a ∧ Clean (k (some a)) s b s' := by
  rw [clean_bind]
  apply Iff.intro
  · intro h
    obtain ⟨o, t, hchk, hk⟩ := h
    obtain ⟨a, hr, rfl, rfl⟩ := clean_chk.mp hchk
    exact ⟨a, hr, hk⟩
  · intro h
    obtain ⟨a, hr, hk⟩ := h
    exact ⟨some a, s, clean_chk.mpr ⟨a, hr, rfl, rfl⟩, hk⟩

theorem clean_current_bind {k : σ → Logged ε σ β} {s s' : σ} {b : β} :
    Clean (current >>= k) s b s' ↔ Clean (k s) s b s' := by
  rw [clean_bind]
  apply Iff.intro
  · intro h
    obtain ⟨t, s1, hcur, hk⟩ := h
    obtain ⟨rfl, rfl⟩ := clean_current.mp hcur
    exact hk
  · intro hk
    exact ⟨s, s, clean_current.mpr ⟨rfl, rfl⟩, hk⟩

theorem clean_zoom {view : σ → τ} {update : σ → τ → σ} {m : Logged ε τ α} {s s' : σ} {a : α} :
    Clean (zoom view update m) s a s' ↔ ∃ t, Clean m (view s) a t ∧ s' = update s t := by
  have hrun : zoom view update m s = ((m (view s)).1, (m (view s)).2.1, update s (m (view s)).2.2) :=
    rfl
  unfold Clean
  rw [hrun]
  apply Iff.intro
  · intro h
    obtain ⟨herrors, hpair⟩ := Prod.mk.inj h
    obtain ⟨ha, hs⟩ := Prod.mk.inj hpair
    exact ⟨(m (view s)).2.2, Prod.ext herrors (Prod.ext ha rfl), hs.symm⟩
  · intro h'
    obtain ⟨t, hm, rfl⟩ := h'
    rw [hm]

theorem clean_forM_nil {f : β → Logged ε σ Unit} {s s' : σ} {u : Unit} :
    Clean (([] : List β).forM f) s u s' ↔ s' = s := by
  show (([], (), s) : List ε × Unit × σ) = ([], u, s') ↔ s' = s
  rw [Prod.mk.injEq, Prod.mk.injEq]
  tauto

theorem clean_forM_cons {x : β} {xs : List β} {f : β → Logged ε σ Unit} {s s' : σ} {u : Unit} :
    Clean ((x :: xs).forM f) s u s' ↔ ∃ t, Clean (f x) s () t ∧ Clean (xs.forM f) t u s' := by
  have hcons : (x :: xs).forM f = f x >>= fun _ => xs.forM f := rfl
  rw [hcons, clean_bind]
  apply Iff.intro
  · intro h
    obtain ⟨_, t, hx, hxs⟩ := h
    exact ⟨t, hx, hxs⟩
  · intro h
    obtain ⟨t, hx, hxs⟩ := h
    exact ⟨(), t, hx, hxs⟩

/-! ### Relational specifications

`Meets view m R`: what a clean run of `m` does to `view` of the state is exactly
the relation `R`. -/

def Meets (view : σ → τ) (m : Logged ε σ Unit) (R : τ → τ → Prop) : Prop :=
  ∀ s t', (∃ s', Clean m s () s' ∧ view s' = t') ↔ R (view s) t'

namespace Meets

variable {view : σ → τ} {m m' : Logged ε σ Unit} {R R' : τ → τ → Prop}

theorem congr (h : Meets view m R) (hR : ∀ t t', R t t' ↔ R' t t') : Meets view m R' := by
  intro s t'
  rw [h s t']
  exact hR (view s) t'

theorem quiet : Meets view (Pure.pure () : Logged ε σ Unit) fun t t' => t' = t := by
  intro s t'
  simp only [clean_pure, true_and, exists_eq_left]
  exact eq_comm

theorem seq (h : Meets view m R) (h' : Meets view m' R') :
    Meets view (m >>= fun _ => m') fun t t'' => ∃ t', R t t' ∧ R' t' t'' := by
  intro s t''
  simp only [clean_bind]
  apply Iff.intro
  · intro hcase
    obtain ⟨s'', ⟨_, s', hm, hm'⟩, hview⟩ := hcase
    exact ⟨view s', (h s _).mp ⟨s', hm, rfl⟩, (h' s' t'').mp ⟨s'', hm', hview⟩⟩
  · intro hcase
    obtain ⟨t', hR, hR'⟩ := hcase
    obtain ⟨s', hm, rfl⟩ := (h s t').mpr hR
    obtain ⟨s'', hm', hview⟩ := (h' s' t'').mpr hR'
    exact ⟨s'', ⟨(), s', hm, hm'⟩, hview⟩

theorem read {k : σ → Logged ε σ Unit} (h : ∀ s, Meets view (k s) R) :
    Meets view (current >>= k) R := by
  intro s t'
  simp only [clean_current_bind]
  exact h s s t'

theorem chk {r : Except ε α} {f : α → Logged ε σ Unit} {R : α → τ → τ → Prop}
    (h : ∀ a, r = .ok a → Meets view (f a) (R a)) :
    Meets view (chk r >>= fun o => ifSome o f) fun t t' => ∃ a, r = .ok a ∧ R a t t' := by
  intro s t'
  simp only [clean_chk_bind]
  apply Iff.intro
  · intro h'
    obtain ⟨s', ⟨a, hr, hclean⟩, hview⟩ := h'
    exact ⟨a, hr, (h a hr s t').mp ⟨s', hclean, hview⟩⟩
  · intro h'
    obtain ⟨a, hr, hR⟩ := h'
    obtain ⟨s', hclean, hview⟩ := (h a hr s t').mpr hR
    exact ⟨s', ⟨a, hr, hclean⟩, hview⟩

theorem ifSome {o : Option α} {f : α → Logged ε σ Unit} {R : α → τ → τ → Prop}
    (h : ∀ a, o = some a → Meets view (f a) (R a)) :
    Meets view (ifSome o f) fun t t' => (o = none ∧ t' = t) ∨ ∃ a, o = some a ∧ R a t t' := by
  cases o with
  | none =>
    refine quiet.congr fun t t' => ?_
    simp
  | some a =>
    refine (h a rfl).congr fun t t' => ?_
    simp

theorem reportAll (es : List ε) :
    Meets view (reportAll es) fun t t' => es = [] ∧ t' = t := by
  intro s t'
  simp only [clean_reportAll]
  apply Iff.intro
  · intro h
    obtain ⟨s', ⟨hes, rfl⟩, hview⟩ := h
    exact ⟨hes, hview.symm⟩
  · intro h
    obtain ⟨hes, rfl⟩ := h
    exact ⟨s, ⟨hes, rfl⟩, rfl⟩

theorem reportIf (p : Bool) (e : ε) :
    Meets view (reportIf p e) fun t t' => p = false ∧ t' = t := by
  intro s t'
  simp only [clean_reportIf]
  apply Iff.intro
  · intro h
    obtain ⟨s', ⟨hp, rfl⟩, hview⟩ := h
    exact ⟨hp, hview.symm⟩
  · intro h
    obtain ⟨hp, rfl⟩ := h
    exact ⟨s, ⟨hp, rfl⟩, rfl⟩

theorem adjust {f : σ → σ} {g : τ → τ} (h : ∀ s, view (f s) = g (view s)) :
    Meets view (Logged.adjust f : Logged ε σ Unit) fun t t' => t' = g t := by
  intro s t'
  simp only [clean_adjust, exists_eq_left, h]
  exact eq_comm

theorem adjust_id (f : σ → σ) : Meets id (Logged.adjust f : Logged ε σ Unit) fun s s' => s' = f s :=
  adjust fun _ => rfl

theorem report (e : ε) : Meets view (Logged.report e) fun _ _ => False := by
  intro s t'
  simp [clean_report]

end Meets

/-- One step for each element of a list. -/
def Steps (R : β → τ → τ → Prop) : List β → τ → τ → Prop
  | [], t, t' => t' = t
  | x :: xs, t, t'' => ∃ t', R x t t' ∧ Steps R xs t' t''

theorem Meets.each {view : σ → τ} {f : β → Logged ε σ Unit} {R : β → τ → τ → Prop} {xs : List β}
    (h : ∀ x ∈ xs, Meets view (f x) (R x)) : Meets view (xs.forM f) (Steps R xs) := by
  induction xs with
  | nil => exact Meets.quiet
  | cons x xs ih =>
    have hhead := h x List.mem_cons_self
    have htail := ih fun y hy => h y (List.mem_cons_of_mem x hy)
    exact Meets.seq hhead htail

end Pimc.Lib
