import Mathlib.Data.Sum.Order
import Pimc.Lib.ComparisonOps

/-!
# Comparisons of results (lib/pimc/core/Result.hpp)

`Result<void, E>` is a result whose value is `()`. `value()` and `error()` are
undefined in the other state, so a call of them comes with the proof of the
check before it.
-/

namespace Pimc

open Lib

inductive Result (T E : Type) where
  | value (v : T)
  | error (e : E)
  deriving DecidableEq, Repr

structure Failure (E : Type) where
  error : E
  deriving DecidableEq, Repr

namespace Result

variable {T E : Type}

def hasValue : Result T E → Bool
  | value _ => true
  | error _ => false

def hasError (r : Result T E) : Bool := !r.hasValue

def getValue : (r : Result T E) → r.hasValue = true → T
  | value v, _ => v

def getError : (r : Result T E) → r.hasError = true → E
  | error e, _ => e

theorem hasError_of_not {r : Result T E} (h : ¬ r.hasValue = true) : r.hasError = true :=
  congrArg not (Bool.eq_false_iff.mpr h)

/-- The result that a failure is converted to. -/
def ofFailure (f : Failure E) : Result T E := error f.error

end Result

section Operators

variable {T U E F : Type}

/-! ### The operators -/

def compareResults (values : T → U → Bool) (errors : E → F → Bool) (mixed : Bool → Bool → Bool)
    (lhs : Result T E) (rhs : Result U F) : Bool :=
  if h : lhs.hasValue = rhs.hasValue then
    if hv : lhs.hasValue = true then values (lhs.getValue hv) (rhs.getValue (h ▸ hv))
    else errors (lhs.getError (Result.hasError_of_not hv))
      (rhs.getError (Result.hasError_of_not (h ▸ hv)))
  else mixed lhs.hasValue rhs.hasValue

def resultOps (V : Ops T U) (W : Ops E F) : Ops (Result T E) (Result U F) where
  eq := compareResults V.eq W.eq fun _ _ => false
  ne := compareResults V.ne W.ne fun _ _ => true
  lt := compareResults V.lt W.lt fun l r => decide (l.toNat < r.toNat)
  le := compareResults V.le W.le fun l r => decide (l.toNat ≤ r.toNat)
  gt := compareResults V.gt W.gt fun l r => decide (l.toNat > r.toNat)
  ge := compareResults V.ge W.ge fun l r => decide (l.toNat ≥ r.toNat)

/-- The operators between `Result<void, E>` and `Result<void, F>`. -/
def voidOps (W : Ops E F) : Ops (Result Unit E) (Result Unit F) where
  eq := compareResults (fun _ _ => true) W.eq fun _ _ => false
  ne := compareResults (fun _ _ => false) W.ne fun _ _ => true
  lt := compareResults (fun _ _ => false) W.lt fun l r => decide (l.toNat < r.toNat)
  le := compareResults (fun _ _ => true) W.le fun l r => decide (l.toNat ≤ r.toNat)
  gt := compareResults (fun _ _ => false) W.gt fun l r => decide (l.toNat > r.toNat)
  ge := compareResults (fun _ _ => true) W.ge fun l r => decide (l.toNat ≥ r.toNat)

-- `r.hasValue() and op(r.value())`, and the three other shapes.
def valueAnd (r : Result T E) (op : T → Bool) : Bool :=
  if h : r.hasValue = true then op (r.getValue h) else false

def errorOr (r : Result T E) (op : T → Bool) : Bool :=
  if h : r.hasValue = true then op (r.getValue h) else true

def errorAnd (r : Result T E) (op : E → Bool) : Bool :=
  if h : r.hasError = true then op (r.getError h) else false

def valueOr (r : Result T E) (op : E → Bool) : Bool :=
  if h : r.hasError = true then op (r.getError h) else true

def resultValueOps (V : Ops T U) : Ops (Result T E) U where
  eq lhs rhs := valueAnd lhs fun v => V.eq v rhs
  ne lhs rhs := errorOr lhs fun v => V.ne v rhs
  lt lhs rhs := errorOr lhs fun v => V.lt v rhs
  le lhs rhs := errorOr lhs fun v => V.le v rhs
  gt lhs rhs := valueAnd lhs fun v => V.gt v rhs
  ge lhs rhs := valueAnd lhs fun v => V.ge v rhs

def valueResultOps (V : Ops T U) : Ops T (Result U F) where
  eq lhs rhs := valueAnd rhs fun v => V.eq lhs v
  ne lhs rhs := errorOr rhs fun v => V.ne lhs v
  lt lhs rhs := valueAnd rhs fun v => V.lt lhs v
  le lhs rhs := valueAnd rhs fun v => V.le lhs v
  gt lhs rhs := errorOr rhs fun v => V.gt lhs v
  ge lhs rhs := errorOr rhs fun v => V.ge lhs v

def resultFailureOps (W : Ops E F) : Ops (Result T E) (Failure F) where
  eq lhs rhs := errorAnd lhs fun e => W.eq e rhs.error
  ne lhs rhs := valueOr lhs fun e => W.ne e rhs.error
  lt lhs rhs := errorAnd lhs fun e => W.lt e rhs.error
  le lhs rhs := errorAnd lhs fun e => W.le e rhs.error
  gt lhs rhs := valueOr lhs fun e => W.gt e rhs.error
  ge lhs rhs := valueOr lhs fun e => W.ge e rhs.error

def failureResultOps (W : Ops E F) : Ops (Failure E) (Result U F) where
  eq lhs rhs := errorAnd rhs fun e => W.eq lhs.error e
  ne lhs rhs := valueOr rhs fun e => W.ne lhs.error e
  lt lhs rhs := valueOr rhs fun e => W.lt lhs.error e
  le lhs rhs := valueOr rhs fun e => W.le lhs.error e
  gt lhs rhs := errorAnd rhs fun e => W.gt lhs.error e
  ge lhs rhs := errorAnd rhs fun e => W.ge lhs.error e

def failureOps (W : Ops E F) : Ops (Failure E) (Failure F) :=
  W.wrap Failure.error Failure.error

/-! ### Wrapping -/

theorem resultValueOps_eq (V : Ops T U) (W : Ops E F) :
    resultValueOps V = (resultOps V W).wrap id Result.value := by
  ext r v <;> cases r <;> rfl

theorem valueResultOps_eq (V : Ops T U) (W : Ops E F) :
    valueResultOps V = (resultOps V W).wrap Result.value id := by
  ext v r <;> cases r <;> rfl

theorem resultFailureOps_eq (V : Ops T U) (W : Ops E F) :
    resultFailureOps W = (resultOps V W).wrap id Result.ofFailure := by
  ext r f <;> cases r <;> rfl

theorem failureResultOps_eq (V : Ops T U) (W : Ops E F) :
    failureResultOps W = (resultOps V W).wrap Result.ofFailure id := by
  ext f r <;> cases r <;> rfl

theorem voidOps_eq (W : Ops E F) : voidOps W = resultOps (Ops.ofOrder Unit) W := by
  ext l r <;> cases l <;> cases r <;> rfl

end Operators

/-! ### The order -/

namespace Result

variable {T E : Type}

def key : Result T E → E ⊕ₗ T
  | value v => toLex (Sum.inr v)
  | error e => toLex (Sum.inl e)

theorem key_injective : Function.Injective (key : Result T E → E ⊕ₗ T) := by
  intro r s h
  cases r with
  | value v =>
    cases s with
    | value w => rw [Sum.inr_injective (toLex_inj.mp h)]
    | error f => cases toLex_inj.mp h
  | error e =>
    cases s with
    | value w => cases toLex_inj.mp h
    | error f => rw [Sum.inl_injective (toLex_inj.mp h)]

variable [LinearOrder T] [LinearOrder E]

/-- Errors come before values. -/
instance : LinearOrder (Result T E) := LinearOrder.lift' key key_injective

theorem value_le_value {v w : T} : (value v : Result T E) ≤ value w ↔ v ≤ w :=
  Sum.Lex.inr_le_inr_iff

theorem value_lt_value {v w : T} : (value v : Result T E) < value w ↔ v < w :=
  Sum.Lex.inr_lt_inr_iff

theorem error_le_error {e f : E} : (error e : Result T E) ≤ error f ↔ e ≤ f :=
  Sum.Lex.inl_le_inl_iff

theorem error_lt_error {e f : E} : (error e : Result T E) < error f ↔ e < f :=
  Sum.Lex.inl_lt_inl_iff

theorem error_lt_value (e : E) (v : T) : (error e : Result T E) < value v :=
  Sum.Lex.inl_lt_inr e v

theorem error_le_value (e : E) (v : T) : (error e : Result T E) ≤ value v :=
  (error_lt_value e v).le

theorem not_value_le_error (v : T) (e : E) : ¬ (value v : Result T E) ≤ error e :=
  (error_lt_value e v).not_ge

theorem not_value_lt_error (v : T) (e : E) : ¬ (value v : Result T E) < error e :=
  (error_lt_value e v).not_gt

end Result

section Order

variable {T E : Type}

/-- An operator that is right in the four combinations of states is right. -/
theorem compareResults_iff {R : Result T E → Result T E → Prop} {values : T → T → Bool}
    {errors : E → E → Bool} {mixed : Bool → Bool → Bool}
    (hvalues : ∀ v w, values v w = true ↔ R (.value v) (.value w))
    (herrors : ∀ e f, errors e f = true ↔ R (.error e) (.error f))
    (hvalue : ∀ v e, mixed true false = true ↔ R (.value v) (.error e))
    (herror : ∀ e v, mixed false true = true ↔ R (.error e) (.value v)) (l r : Result T E) :
    compareResults values errors mixed l r = true ↔ R l r := by
  cases l with
  | value v =>
    cases r with
    | value w => exact hvalues v w
    | error e => exact hvalue v e
  | error e =>
    cases r with
    | value v => exact herror e v
    | error f => exact herrors e f

theorem compareResults_swap {values values' : T → T → Bool} {errors errors' : E → E → Bool}
    {mixed mixed' : Bool → Bool → Bool} (hvalues : ∀ v w, values v w = values' w v)
    (herrors : ∀ e f, errors e f = errors' f e) (hmixed : ∀ x y, mixed x y = mixed' y x)
    (l r : Result T E) :
    compareResults values errors mixed l r = compareResults values' errors' mixed' r l := by
  cases l with
  | value v =>
    cases r with
    | value w => exact hvalues v w
    | error e => exact hmixed true false
  | error e =>
    cases r with
    | value v => exact hmixed false true
    | error f => exact herrors e f

section Same

variable [LinearOrder T] [LinearOrder E] (l r : Result T E)

open Result

theorem resultOps_lt : (resultOps (Ops.ofOrder T) (Ops.ofOrder E)).lt l r = true ↔ l < r := by
  simp only [resultOps, Ops.ofOrder]
  refine compareResults_iff (R := fun l r => l < r) ?_ ?_ ?_ ?_ l r
  · intro v w
    exact decide_eq_true_iff.trans value_lt_value.symm
  · intro e f
    exact decide_eq_true_iff.trans error_lt_error.symm
  · intro v e
    exact iff_of_false (by decide) (not_value_lt_error v e)
  · intro e v
    exact iff_of_true (by decide) (error_lt_value e v)

theorem resultOps_le : (resultOps (Ops.ofOrder T) (Ops.ofOrder E)).le l r = true ↔ l ≤ r := by
  simp only [resultOps, Ops.ofOrder]
  refine compareResults_iff (R := fun l r => l ≤ r) ?_ ?_ ?_ ?_ l r
  · intro v w
    exact decide_eq_true_iff.trans value_le_value.symm
  · intro e f
    exact decide_eq_true_iff.trans error_le_error.symm
  · intro v e
    exact iff_of_false (by decide) (not_value_le_error v e)
  · intro e v
    exact iff_of_true (by decide) (error_le_value e v)

theorem resultOps_gt : (resultOps (Ops.ofOrder T) (Ops.ofOrder E)).gt l r = true ↔ l > r := by
  have hswap : (resultOps (Ops.ofOrder T) (Ops.ofOrder E)).gt l r =
      (resultOps (Ops.ofOrder T) (Ops.ofOrder E)).lt r l := by
    simp only [resultOps, Ops.ofOrder]
    exact compareResults_swap (fun _ _ => rfl) (fun _ _ => rfl) (fun _ _ => rfl) l r
  rw [hswap, resultOps_lt]

theorem resultOps_ge : (resultOps (Ops.ofOrder T) (Ops.ofOrder E)).ge l r = true ↔ l ≥ r := by
  have hswap : (resultOps (Ops.ofOrder T) (Ops.ofOrder E)).ge l r =
      (resultOps (Ops.ofOrder T) (Ops.ofOrder E)).le r l := by
    simp only [resultOps, Ops.ofOrder]
    exact compareResults_swap (fun _ _ => rfl) (fun _ _ => rfl) (fun _ _ => rfl) l r
  rw [hswap, resultOps_le]

end Same

theorem resultOps_ofOrder (T E : Type) [LinearOrder T] [LinearOrder E] :
    resultOps (Ops.ofOrder T) (Ops.ofOrder E) = Ops.ofOrder (Result T E) := by
  ext l r <;> rw [Bool.eq_iff_iff]
  case eq =>
    simp only [resultOps, Ops.ofOrder, decide_eq_true_iff]
    refine compareResults_iff (R := fun l r => l = r) ?_ ?_ ?_ ?_ l r <;> simp
  case ne =>
    simp only [resultOps, Ops.ofOrder, decide_eq_true_iff]
    refine compareResults_iff (R := fun l r => l ≠ r) ?_ ?_ ?_ ?_ l r <;> simp
  case lt => exact (resultOps_lt l r).trans decide_eq_true_iff.symm
  case le => exact (resultOps_le l r).trans decide_eq_true_iff.symm
  case gt => exact (resultOps_gt l r).trans decide_eq_true_iff.symm
  case ge => exact (resultOps_ge l r).trans decide_eq_true_iff.symm

theorem voidOps_ofOrder (E : Type) [LinearOrder E] :
    voidOps (Ops.ofOrder E) = Ops.ofOrder (Result Unit E) := by
  rw [voidOps_eq, resultOps_ofOrder]

/-! ### Mixed chains -/

/-- What can stand on a side of a comparison. -/
inductive Operand (T E : Type) where
  | result (r : Result T E)
  | value (v : T)
  | failure (f : Failure E)

def Operand.toResult : Operand T E → Result T E
  | result r => r
  | value v => .value v
  | failure f => .ofFailure f

/-- The verdicts of the operators there are: none between a value and a failure. -/
def Operand.compare (V : Ops T T) (W : Ops E E) : Operand T E → Operand T E → Option Verdicts
  | result l, result r => some ((resultOps V W).on l r)
  | result l, value r => some ((resultValueOps V).on l r)
  | value l, result r => some ((valueResultOps V).on l r)
  | result l, failure r => some ((resultFailureOps W).on l r)
  | failure l, result r => some ((failureResultOps W).on l r)
  | value l, value r => some (V.on l r)
  | failure l, failure r => some ((failureOps W).on l r)
  | value _, failure _ => none
  | failure _, value _ => none

theorem Operand.compare_eq {V : Ops T T} {W : Ops E E} {a b : Operand T E} {x : Verdicts}
    (h : a.compare V W b = some x) : x = (resultOps V W).on a.toResult b.toResult := by
  cases a with
  | result l =>
    cases b with
    | result r => exact (Option.some.inj h).symm
    | value r =>
      rw [← Option.some.inj h, resultValueOps_eq V W]
      exact Ops.on_wrap ..
    | failure r =>
      rw [← Option.some.inj h, resultFailureOps_eq V W]
      exact Ops.on_wrap ..
  | value l =>
    cases b with
    | result r =>
      rw [← Option.some.inj h, valueResultOps_eq V W]
      exact Ops.on_wrap ..
    | value r => exact (Option.some.inj h).symm
    | failure r => cases h
  | failure l =>
    cases b with
    | result r =>
      rw [← Option.some.inj h, failureResultOps_eq V W]
      exact Ops.on_wrap ..
    | value r => cases h
    | failure r => exact (Option.some.inj h).symm

section Chains

variable [LinearOrder T] [LinearOrder E]

/-- The operators between two operands. -/
def Operand.verdicts (a b : Operand T E) : Option Verdicts :=
  a.compare (Ops.ofOrder T) (Ops.ofOrder E) b

variable {a b c : Operand T E} {x y z : Verdicts}

theorem Operand.verdicts_eq (h : a.verdicts b = some x) :
    x = (Ops.ofOrder (Result T E)).on a.toResult b.toResult := by
  rw [compare_eq h, resultOps_ofOrder]

theorem Operand.le_iff (h : a.verdicts b = some x) : x.le = true ↔ a.toResult ≤ b.toResult := by
  rw [verdicts_eq h, Ops.on_ofOrder_le]

theorem Operand.lt_iff (h : a.verdicts b = some x) : x.lt = true ↔ a.toResult < b.toResult := by
  rw [verdicts_eq h, Ops.on_ofOrder_lt]

theorem Operand.eq_iff (h : a.verdicts b = some x) : x.eq = true ↔ a.toResult = b.toResult := by
  rw [verdicts_eq h, Ops.on_ofOrder_eq]

/-- A chain of two comparisons, and the comparison of its ends where there is one. -/
structure Chains (x y z : Verdicts) : Prop where
  le_le : x.le = true → y.le = true → z.le = true
  lt_le : x.lt = true → y.le = true → z.lt = true
  le_lt : x.le = true → y.lt = true → z.lt = true
  eq_eq : x.eq = true → y.eq = true → z.eq = true

theorem Operand.chains (hx : a.verdicts b = some x) (hy : b.verdicts c = some y)
    (hz : a.verdicts c = some z) : Chains x y z where
  le_le := by
    rw [le_iff hx, le_iff hy, le_iff hz]
    exact le_trans
  lt_le := by
    rw [lt_iff hx, le_iff hy, lt_iff hz]
    exact lt_of_lt_of_le
  le_lt := by
    rw [le_iff hx, lt_iff hy, lt_iff hz]
    exact lt_of_le_of_lt
  eq_eq := by
    rw [eq_iff hx, eq_iff hy, eq_iff hz]
    exact Eq.trans

theorem Operand.antisymm (hx : a.verdicts b = some x) (hy : b.verdicts a = some y)
    (hle : x.le = true) (hge : y.le = true) : x.eq = true ∧ a.toResult = b.toResult := by
  have hsame := le_antisymm ((le_iff hx).mp hle) ((le_iff hy).mp hge)
  exact ⟨(eq_iff hx).mpr hsame, hsame⟩

end Chains

/-- All comparisons of results, values and failures are those of one order. -/
theorem comparisons_one_order {T E U F : Type} [LinearOrder T] [LinearOrder E] (V : Ops T U)
    (W : Ops E F) :
    (resultOps (Ops.ofOrder T) (Ops.ofOrder E) = Ops.ofOrder (Result T E) ∧
      voidOps (Ops.ofOrder E) = Ops.ofOrder (Result Unit E) ∧
      (∀ (e : E) (v : T), (Result.error e : Result T E) < .value v) ∧
      (∀ v w : T, (Result.value v : Result T E) ≤ .value w ↔ v ≤ w) ∧
      ∀ e f : E, (Result.error e : Result T E) ≤ .error f ↔ e ≤ f) ∧
    (resultValueOps V = (resultOps V W).wrap id Result.value ∧
      valueResultOps V = (resultOps V W).wrap Result.value id ∧
      resultFailureOps W = (resultOps V W).wrap id Result.ofFailure ∧
      failureResultOps W = (resultOps V W).wrap Result.ofFailure id ∧
      resultFailureOps W = (voidOps W).wrap id Result.ofFailure ∧
      failureResultOps W = (voidOps W).wrap Result.ofFailure id) ∧
    (∀ (a b c : Operand T E) (x y z : Verdicts), a.verdicts b = some x → b.verdicts c = some y →
      a.verdicts c = some z → Chains x y z) ∧
    ∀ (a b : Operand T E) (x y : Verdicts), a.verdicts b = some x → b.verdicts a = some y →
      x.le = true → y.le = true → x.eq = true ∧ a.toResult = b.toResult := by
  refine ⟨⟨resultOps_ofOrder T E, voidOps_ofOrder E, Result.error_lt_value,
    fun _ _ => Result.value_le_value, fun _ _ => Result.error_le_error⟩,
    ⟨resultValueOps_eq V W, valueResultOps_eq V W, resultFailureOps_eq V W,
      failureResultOps_eq V W, ?_, ?_⟩, ?_, ?_⟩
  · rw [voidOps_eq, ← resultFailureOps_eq]
  · rw [voidOps_eq, ← failureResultOps_eq]
  · intro a b c x y z hx hy hz
    exact Operand.chains hx hy hz
  · intro a b x y hx hy hle hge
    exact Operand.antisymm hx hy hle hge

theorem comparisons_one_order_example :
    Chains ((Ops.ofOrder (Result ℕ ℕ)).on (.error 5) (.value 2)) ((Ops.ofOrder ℕ).on 2 3)
        ((Ops.ofOrder (Result ℕ ℕ)).on (.error 5) (.value 3)) ∧
      (Operand.failure ⟨5⟩ : Operand ℕ ℕ).toResult = .error 5 := by
  obtain ⟨_, _, hchain, hanti⟩ := comparisons_one_order (Ops.ofOrder ℕ) (Ops.ofOrder ℕ)
  apply And.intro
  · exact hchain (.result (.error 5)) (.value 2) (.value 3) _ _ _ (by decide) (by decide)
      (by decide)
  · exact (hanti (.failure ⟨5⟩) (.result (.error 5)) _ _ rfl rfl (by decide) (by decide)).2

end Order

end Pimc
