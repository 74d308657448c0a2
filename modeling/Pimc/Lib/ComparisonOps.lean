import Mathlib.Order.Lattice

/-!
# Families of comparison operators

The six comparison operators between two types, the family of a linear order,
and the family that two embeddings give.
-/

namespace Pimc.Lib

structure Verdicts where
  eq : Bool
  ne : Bool
  lt : Bool
  le : Bool
  gt : Bool
  ge : Bool
  deriving DecidableEq, Repr

@[ext]
structure Ops (α β : Type) where
  eq : α → β → Bool
  ne : α → β → Bool
  lt : α → β → Bool
  le : α → β → Bool
  gt : α → β → Bool
  ge : α → β → Bool

namespace Ops

variable {α β γ δ : Type}

def on (o : Ops α β) (a : α) (b : β) : Verdicts :=
  ⟨o.eq a b, o.ne a b, o.lt a b, o.le a b, o.gt a b, o.ge a b⟩

def ofOrder (α : Type) [LinearOrder α] : Ops α α where
  eq a b := decide (a = b)
  ne a b := decide (a ≠ b)
  lt a b := decide (a < b)
  le a b := decide (a ≤ b)
  gt a b := decide (a > b)
  ge a b := decide (a ≥ b)

/-- The operators after both sides are wrapped. -/
def wrap (f : α → γ) (g : β → δ) (o : Ops γ δ) : Ops α β where
  eq a b := o.eq (f a) (g b)
  ne a b := o.ne (f a) (g b)
  lt a b := o.lt (f a) (g b)
  le a b := o.le (f a) (g b)
  gt a b := o.gt (f a) (g b)
  ge a b := o.ge (f a) (g b)

theorem on_wrap (f : α → γ) (g : β → δ) (o : Ops γ δ) (a : α) (b : β) :
    (o.wrap f g).on a b = o.on (f a) (g b) := rfl

section Order

variable [LinearOrder α] {a b : α}

theorem on_ofOrder_le : ((ofOrder α).on a b).le = true ↔ a ≤ b := decide_eq_true_iff

theorem on_ofOrder_lt : ((ofOrder α).on a b).lt = true ↔ a < b := decide_eq_true_iff

theorem on_ofOrder_eq : ((ofOrder α).on a b).eq = true ↔ a = b := decide_eq_true_iff

end Order

end Ops

end Pimc.Lib
