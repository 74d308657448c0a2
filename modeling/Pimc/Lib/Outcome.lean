import Mathlib.Data.List.Sort
import Mathlib.Tactic.Linarith

/-!
# Fuelled calls and while loops

A call of an imperative function returns, throws, or is still running when its
fuel is spent. `whileLoop` is the `while` statement over such calls. The rules
below are stated for `Returns`, which forgets the fuel: `Returns call a` says
that the call settles on `a` once it is given enough of it, so a proof of
`Returns` is a proof of termination as well.
-/

namespace Pimc.Lib

/-- What a call has done when its fuel is spent. -/
inductive Outcome (ε α : Type) where
  | ret (a : α)
  | throws (e : ε)
  | running
  deriving Repr, DecidableEq

namespace Outcome

variable {ε α β σ : Type}

def bind : Outcome ε α → (α → Outcome ε β) → Outcome ε β
  | ret a, k => k a
  | throws e, _ => throws e
  | running, _ => running

instance : Monad (Outcome ε) where
  pure := ret
  bind := bind

@[simp] theorem pure_eq (a : α) : (pure a : Outcome ε α) = ret a := rfl

@[simp] theorem ret_bind (a : α) (k : α → Outcome ε β) : (ret a >>= k) = k a := rfl

@[simp] theorem throws_bind (e : ε) (k : α → Outcome ε β) : (throws e >>= k) = throws e := rfl

@[simp] theorem running_bind (k : α → Outcome ε β) : (running >>= k) = running := rfl

instance : LawfulMonad (Outcome ε) :=
  LawfulMonad.mk' (Outcome ε)
    (by
      intro α x
      cases x <;> rfl)
    (by
      intro α β a k
      rfl)
    (by
      intro α β γ x k l
      cases x <;> rfl)

/-- The exception is wrapped. -/
def mapError {ε' : Type} (f : ε → ε') : Outcome ε α → Outcome ε' α
  | ret a => ret a
  | throws e => throws (f e)
  | running => running

end Outcome

open Outcome

variable {ε α β σ : Type}

/-- `while (guard s) s = body s;` with at most `fuel` evaluations of the guard. -/
def whileLoop (guard : σ → Bool) (body : σ → Outcome ε σ) : ℕ → σ → Outcome ε σ
  | 0, _ => running
  | fuel + 1, s => if guard s then body s >>= whileLoop guard body fuel else ret s

/-- The states in which the guard is evaluated by a loop entered in `s`. -/
inductive LoopReach (guard : σ → Bool) (body : σ → Outcome ε σ) (s : σ) : σ → Prop where
  | entry : LoopReach guard body s s
  | again {t u : σ} (ht : LoopReach guard body s t) (hg : guard t = true)
      (hb : body t = ret u) : LoopReach guard body s u

/-- The call settles on `a` once it has enough fuel. -/
def Returns (call : ℕ → Outcome ε α) (a : α) : Prop := ∃ n, ∀ fuel, n ≤ fuel → call fuel = ret a

/-! ### Calls -/

theorem Returns.of_eq {call : ℕ → Outcome ε α} {a : α} (h : ∀ fuel, call fuel = ret a) :
    Returns call a := ⟨0, fun fuel _ => h fuel⟩

theorem Returns.unique {call : ℕ → Outcome ε α} {a b : α} (ha : Returns call a)
    (hb : Returns call b) : a = b := by
  obtain ⟨n, hn⟩ := ha
  obtain ⟨m, hm⟩ := hb
  have h := (hn (max n m) (le_max_left n m)).symm.trans (hm (max n m) (le_max_right n m))
  injection h

theorem Returns.bind {call : ℕ → Outcome ε α} {next : ℕ → α → Outcome ε β} {a : α} {b : β}
    (ha : Returns call a) (hb : Returns (fun fuel => next fuel a) b) :
    Returns (fun fuel => call fuel >>= next fuel) b := by
  obtain ⟨n, hn⟩ := ha
  obtain ⟨m, hm⟩ := hb
  refine ⟨max n m, fun fuel hf => ?_⟩
  show (call fuel >>= next fuel) = ret b
  rw [hn fuel (le_trans (le_max_left n m) hf), ret_bind]
  exact hm fuel (le_trans (le_max_right n m) hf)

theorem Returns.mapError {ε' : Type} {call : ℕ → Outcome ε α} {a : α} (h : Returns call a)
    (f : ε → ε') : Returns (fun fuel => (call fuel).mapError f) a := by
  obtain ⟨n, hn⟩ := h
  refine ⟨n, fun fuel hf => ?_⟩
  show (call fuel).mapError f = ret a
  rw [hn fuel hf]
  rfl

/-- The call has the outcome `x` once it has enough fuel. -/
def Settles (call : ℕ → Outcome ε α) (x : Outcome ε α) : Prop :=
  ∃ n, ∀ fuel, n ≤ fuel → call fuel = x

theorem Settles.of_eq {call : ℕ → Outcome ε α} {x : Outcome ε α} (h : ∀ fuel, call fuel = x) :
    Settles call x := ⟨0, fun fuel _ => h fuel⟩

theorem Settles.unique {call : ℕ → Outcome ε α} {x y : Outcome ε α} (hx : Settles call x)
    (hy : Settles call y) : x = y := by
  obtain ⟨n, hn⟩ := hx
  obtain ⟨m, hm⟩ := hy
  exact (hn (max n m) (le_max_left n m)).symm.trans (hm (max n m) (le_max_right n m))

theorem Returns.bind_settles {call : ℕ → Outcome ε α} {next : ℕ → α → Outcome ε β} {a : α}
    {x : Outcome ε β} (ha : Returns call a) (hx : Settles (fun fuel => next fuel a) x) :
    Settles (fun fuel => call fuel >>= next fuel) x := by
  obtain ⟨n, hn⟩ := ha
  obtain ⟨m, hm⟩ := hx
  refine ⟨max n m, fun fuel hf => ?_⟩
  show (call fuel >>= next fuel) = x
  rw [hn fuel (le_trans (le_max_left n m) hf), ret_bind]
  exact hm fuel (le_trans (le_max_right n m) hf)

theorem Settles.bind_throws {call : ℕ → Outcome ε α} {e : ε} (h : Settles call (throws e))
    (next : ℕ → α → Outcome ε β) : Settles (fun fuel => call fuel >>= next fuel) (throws e) := by
  obtain ⟨n, hn⟩ := h
  refine ⟨n, fun fuel hf => ?_⟩
  show (call fuel >>= next fuel) = throws e
  rw [hn fuel hf, throws_bind]

/-! ### More fuel -/

/-- A call that is not running keeps its outcome when it gets more fuel. -/
def Steady (call : ℕ → Outcome ε α) : Prop :=
  ∀ n m, n ≤ m → call n = running ∨ call n = call m

theorem Steady.const (x : Outcome ε α) : Steady fun _ => x := fun _ _ _ => Or.inr rfl

theorem Steady.bind {call : ℕ → Outcome ε α} {next : ℕ → α → Outcome ε β} (hc : Steady call)
    (hn : ∀ a, Steady fun fuel => next fuel a) : Steady fun fuel => call fuel >>= next fuel := by
  intro n m hnm
  rcases hc n m hnm with hrun | heq
  · left
    simp only [hrun, running_bind]
  · cases hm : call m with
    | ret a =>
      simp only [heq, hm, ret_bind]
      exact hn a n m hnm
    | throws e =>
      right
      simp only [heq, hm, throws_bind]
    | running =>
      right
      simp only [heq, hm, running_bind]

theorem Steady.whileLoop (guard : σ → Bool) (body : σ → Outcome ε σ) (s : σ) :
    Steady fun fuel => whileLoop guard body fuel s := by
  intro n
  induction n generalizing s with
  | zero =>
    intro m _
    exact Or.inl rfl
  | succ n ih =>
    intro m hnm
    obtain ⟨k, rfl⟩ := Nat.exists_eq_add_of_le' (le_trans (Nat.le_add_left 1 n) hnm)
    simp only [Lib.whileLoop]
    split_ifs with hg
    · cases hb : body s with
      | ret u => exact ih u k (Nat.le_of_succ_le_succ hnm)
      | throws e => exact Or.inr rfl
      | running => exact Or.inl rfl
    · exact Or.inr rfl

theorem Steady.foldlM {f : ℕ → σ → α → Outcome ε σ} (hf : ∀ s a, Steady fun fuel => f fuel s a)
    (xs : List α) (s : σ) : Steady fun fuel => xs.foldlM (f fuel) s := by
  induction xs generalizing s with
  | nil => exact Steady.const _
  | cons x xs ih =>
    simp only [List.foldlM_cons]
    exact (hf s x).bind ih

/-- A call that returns has not thrown on the way. -/
theorem Returns.never_throws {call : ℕ → Outcome ε α} {a : α} (h : Returns call a)
    (hc : Steady call) (fuel : ℕ) (e : ε) : call fuel ≠ throws e := by
  intro hthrows
  obtain ⟨n, hn⟩ := h
  have hmax := hn (max n fuel) (le_max_left n fuel)
  rcases hc fuel (max n fuel) (le_max_right n fuel) with hrun | heq
  · rw [hrun] at hthrows
    cases hthrows
  · rw [heq, hmax] at hthrows
    cases hthrows

/-- A range-for over a list keeps an invariant that speaks of the elements already visited. -/
theorem foldlM_total (f : ℕ → σ → α → Outcome ε σ) (inv : List α → σ → Prop) (xs : List α)
    (step : ∀ done x rest s, xs = done ++ x :: rest → inv done s →
      ∃ t, Returns (fun fuel => f fuel s x) t ∧ inv (done ++ [x]) t)
    (s : σ) (hs : inv [] s) :
    ∃ t, Returns (fun fuel => xs.foldlM (f fuel) s) t ∧ inv xs t := by
  suffices key : ∀ rest done s, xs = done ++ rest → inv done s →
      ∃ t, Returns (fun fuel => rest.foldlM (f fuel) s) t ∧ inv xs t from key xs [] s rfl hs
  intro rest
  induction rest with
  | nil =>
    intro done s hxs hinv
    rw [List.append_nil] at hxs
    exact ⟨s, Returns.of_eq fun _ => rfl, hxs ▸ hinv⟩
  | cons x rest ih =>
    intro done s hxs hinv
    obtain ⟨t, hx, ht⟩ := step done x rest s hxs hinv
    obtain ⟨u, hrest, hu⟩ := ih (done ++ [x]) t (by simp [hxs]) ht
    refine ⟨u, ?_, hu⟩
    simp only [List.foldlM_cons]
    exact hx.bind hrest

/-- Two range-fors over one list, run side by side. -/
theorem foldlM_related (f f' : ℕ → σ → α → Outcome ε σ) {R : σ → σ → Prop} (xs : List α)
    (step : ∀ x ∈ xs, ∀ s s', R s s' → ∃ t t', Returns (fun fuel => f fuel s x) t ∧
      Returns (fun fuel => f' fuel s' x) t' ∧ R t t') {s s' : σ} (h : R s s') :
    ∃ t t', Returns (fun fuel => xs.foldlM (f fuel) s) t ∧
      Returns (fun fuel => xs.foldlM (f' fuel) s') t' ∧ R t t' := by
  induction xs generalizing s s' with
  | nil => exact ⟨s, s', Returns.of_eq fun _ => rfl, Returns.of_eq fun _ => rfl, h⟩
  | cons x xs ih =>
    obtain ⟨t, t', hx, hx', ht⟩ := step x List.mem_cons_self s s' h
    obtain ⟨u, u', hxs, hxs', hu⟩ := ih (fun y hy => step y (List.mem_cons_of_mem x hy)) ht
    refine ⟨u, u', ?_, ?_, hu⟩
    · simp only [List.foldlM_cons]
      exact hx.bind hxs
    · simp only [List.foldlM_cons]
      exact hx'.bind hxs'

/-! ### Loops -/

section Rules

variable {guard : σ → Bool} {body : σ → Outcome ε σ}

/-- The invariant rule for the states a loop passes through. -/
theorem LoopReach.invariant {inv : σ → Prop} {s t : σ} (h : LoopReach guard body s t) (hs : inv s)
    (step : ∀ s u, inv s → guard s = true → body s = ret u → inv u) : inv t := by
  induction h with
  | entry => exact hs
  | again _ hg hb ih => exact step _ _ ih hg hb

/-- The states a loop passes through satisfy an invariant that goes with a variant. -/
theorem LoopReach.of_step {inv : σ → Prop} {s t : σ} (h : LoopReach guard body s t)
    (variant : σ → ℕ) (hs : inv s)
    (step : ∀ s, inv s → guard s = true → ∃ u, body s = ret u ∧ inv u ∧ variant u < variant s) :
    inv t := by
  apply h.invariant hs
  intro s u hinv hg hb
  obtain ⟨u', hb', hu', _⟩ := step s hinv hg
  rw [hb] at hb'
  injection hb' with heq
  rw [heq]
  exact hu'

/-- Total correctness of a loop whose body is a call of its own. -/
theorem whileLoop_total_nested {body : ℕ → σ → Outcome ε σ} (inv : σ → Prop) (variant : σ → ℕ)
    (step : ∀ s, inv s → guard s = true →
      ∃ u, Returns (fun fuel => body fuel s) u ∧ inv u ∧ variant u < variant s)
    (s : σ) (hs : inv s) :
    ∃ t, Returns (fun fuel => whileLoop guard (body fuel) fuel s) t ∧ inv t ∧ guard t = false := by
  -- The fuel of the bodies and that of the loop are counted apart.
  suffices key : ∃ t n, (∀ f g, n ≤ f → n ≤ g → whileLoop guard (body f) g s = ret t) ∧ inv t ∧
      guard t = false by
    obtain ⟨t, n, hloop, ht⟩ := key
    exact ⟨t, ⟨n, fun fuel hf => hloop fuel fuel hf hf⟩, ht⟩
  induction hv : variant s using Nat.strong_induction_on generalizing s with
  | h v ih =>
    cases hg : guard s with
    | false =>
      refine ⟨s, 1, fun f g _ hle => ?_, hs, hg⟩
      obtain ⟨k, rfl⟩ := Nat.exists_eq_add_of_le' hle
      simp [whileLoop, hg]
    | true =>
      obtain ⟨u, ⟨m, hb⟩, hu, hlt⟩ := step s hs hg
      obtain ⟨t, n, hloop, ht, hgt⟩ := ih (variant u) (by omega) u hu rfl
      refine ⟨t, max m n + 1, fun f g hf hle => ?_, ht, hgt⟩
      obtain ⟨k, rfl⟩ := Nat.exists_eq_add_of_le' (le_trans (Nat.le_add_left 1 _) hle)
      have hbody := hb f (by omega)
      simp only [whileLoop, hg, if_true, hbody, ret_bind]
      exact hloop f k (by omega) (by omega)

/-- Total correctness: an invariant that the body keeps, and a variant that it decreases. -/
theorem whileLoop_total (inv : σ → Prop) (variant : σ → ℕ)
    (step : ∀ s, inv s → guard s = true →
      ∃ u, body s = ret u ∧ inv u ∧ variant u < variant s)
    (s : σ) (hs : inv s) :
    ∃ t, Returns (fun fuel => whileLoop guard body fuel s) t ∧ inv t ∧ guard t = false := by
  apply whileLoop_total_nested inv variant _ s hs
  intro s hinv hg
  obtain ⟨u, hb, hu, hlt⟩ := step s hinv hg
  exact ⟨u, Returns.of_eq fun _ => hb, hu, hlt⟩

/-- The loop returns when it is entered in `s`. -/
def Halts (guard : σ → Bool) (body : σ → Outcome ε σ) (s : σ) : Prop :=
  ∃ t, Returns (fun fuel => whileLoop guard body fuel s) t

theorem Halts.of_variant (inv : σ → Prop) (variant : σ → ℕ)
    (step : ∀ s, inv s → guard s = true →
      ∃ u, body s = ret u ∧ inv u ∧ variant u < variant s)
    {s : σ} (hs : inv s) : Halts guard body s := by
  obtain ⟨t, hret, _⟩ := whileLoop_total inv variant step s hs
  exact ⟨t, hret⟩

/-- A loop whose guard holds in every state it passes through never returns. -/
theorem whileLoop_diverges (inv : σ → Prop)
    (step : ∀ s, inv s → guard s = true ∧ ∃ u, body s = ret u ∧ inv u)
    (s : σ) (hs : inv s) (fuel : ℕ) : whileLoop guard body fuel s = running := by
  induction fuel generalizing s with
  | zero => rfl
  | succ fuel ih =>
    obtain ⟨hg, u, hb, hu⟩ := step s hs
    simp only [whileLoop, hg, if_true, hb, ret_bind]
    exact ih u hu

end Rules

end Pimc.Lib
