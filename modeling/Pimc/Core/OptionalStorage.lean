import Pimc.Core.ResultStorage

/-!
# The storage of an optional (lib/pimc/core/Optional.hpp)

`OptionalAlt` keeps a value or nothing in a union and a flag that says which. An
object of a trivially destructible type is still there when the flag is taken back.
-/

namespace Pimc

open Lib Act Store

structure OptionalSpec where
  triviallyDestructible : Bool
  mayThrow : ObjectOp → Bool

structure OptionalTypes (V : Type) extends OptionalSpec where
  throws : ℕ → ObjectOp → Bool
  declared : ∀ k op, throws k op = true → mayThrow op = true
  movedValue : V → V

structure OptionalAlt (V : Type) where
  live : Option V
  hasValue : Option Bool
  deriving DecidableEq, Repr

abbrev Optionals (V : Type) := Store (Option ℕ) (OptionalAlt V)

/-- A function over optionals. -/
abbrev OptionalAct (V α : Type) := Act Misuse (Optionals V) α

namespace OptionalStorage

variable {V : Type} (T : OptionalTypes V)

def hasValue (x : Option ℕ) : OptionalAct V Bool := do
  match (← get x).hasValue with
  | some b => pure b
  | none => undefined .indeterminate

def value (x : Option ℕ) : OptionalAct V V := do
  match (← get x).live with
  | some v => pure v
  | none => undefined .notAlive

def hasValueOf : Passed (Option V) → OptionalAct V Bool
  | .named _ r => hasValue r
  | .other _ c => pure c.isSome

def valueOf : Passed (Option V) → OptionalAct V V
  | .named _ r => value r
  | .other _ (some v) => pure v
  | .other _ none => undefined .notAlive

def destroy (x : Option ℕ) : OptionalAct V Unit := do
  if T.triviallyDestructible then
    pure ()
  else if ← hasValue x then
    let _ ← value x
    set x ⟨none, some false⟩

def reuse (x : Option ℕ) : OptionalAct V Unit := do
  let a ← get x
  match a.live with
  | none => pure ()
  | some _ =>
    if T.triviallyDestructible then set x { a with live := none } else undefined .overwritten

def constructValue (op : ObjectOp) (x : Option ℕ) (v : V) : OptionalAct V Unit := do
  reuse T x
  operation T.throws op
  set x ⟨some v, some true⟩

def leaveValue (r : Passed (Option V)) (v : V) : OptionalAct V Unit :=
  match r with
  | .named true r => set r ⟨some (T.movedValue v), some true⟩
  | _ => pure ()

def constructFromOptional (x : Option ℕ) (r : Passed (Option V)) : OptionalAct V Unit := do
  if ← hasValueOf r then
    let v ← valueOf r
    constructValue T r.ctor x v
    leaveValue T r v
  else
    set x { (← get x) with hasValue := some false }

def assignValue (x : Option ℕ) (source : ℕ) (v : V) : OptionalAct V Unit :=
  noexcept (!T.mayThrow (.convertAssign source)) do
    if not (← hasValue x) then
      destroy T x
      constructValue T (.convert source) x v
    else
      let _ ← value x
      operation T.throws (.convertAssign source)
      set x ⟨some v, some true⟩

def assignFromOptional (x : Option ℕ) (r : Passed (Option V)) : OptionalAct V Unit := do
  let has ← hasValue x
  if has != (← hasValueOf r) then
    destroy T x
    constructFromOptional T x r
  else if has then
    let _ ← value x
    let v ← valueOf r
    operation T.throws r.assign
    set x ⟨some v, some true⟩
    leaveValue T r v

def constructFrom (x : Option ℕ) (r : Passed (Option V)) : OptionalAct V Unit := do
  set x ⟨none, none⟩
  (constructFromOptional T x r).unwinding do
    destroy T x
    drop x

def initValue (x : Option ℕ) (source : ℕ) (v : V) : OptionalAct V Unit := do
  operation T.throws (.convert source)
  set x ⟨some v, some true⟩

def initEmpty (x : Option ℕ) : OptionalAct V Unit := set x ⟨none, some false⟩

def moveAssign (x r : Option ℕ) : OptionalAct V Unit :=
  (assignFromOptional T x (.named true r)).noexcept (!T.mayThrow .moveAssign)

def assignOther (x : Option ℕ) (source constructed : ℕ) (c : Option V) : OptionalAct V Unit :=
  (assignFromOptional T x (.other source c)).noexcept
    (!T.mayThrow (.convert constructed) && !T.mayThrow (.convertAssign source))

def read (x : Option ℕ) : OptionalAct V Unit := do
  if ← hasValue x then
    let _ ← value x
    pure ()

def endScope (x : Option ℕ) : OptionalAct V Unit := do
  destroy T x
  drop x

def nothrowSwap : Bool := !T.mayThrow .move && !T.mayThrow .moveAssign && !T.mayThrow .swap

def swap (x y : Option ℕ) : OptionalAct V Unit :=
  noexcept (nothrowSwap T) do
    let has ← hasValue x
    if has == (← hasValue y) then
      if has then
        let v ← value x
        let w ← value y
        operation T.throws .swap
        set x ⟨some w, some true⟩
        set y ⟨some v, some true⟩
    else
      constructFrom T none (.named true x)
      inScope (do
        moveAssign T x y
        moveAssign T y none) (endScope T none)

end OptionalStorage

inductive OptionalStmt (V : Type) where
  | initValue (x source : ℕ) (v : V)
  | initEmpty (x : ℕ)
  | initCopy (x r : ℕ)
  | initMove (x r : ℕ)
  | initOther (x source : ℕ) (c : Option V)
  | assignValue (x source : ℕ) (v : V)
  | assignCopy (x r : ℕ)
  | assignMove (x r : ℕ)
  | assignOther (x source constructed : ℕ) (c : Option V)
  | swap (x y : ℕ)
  | read (x : ℕ)
  | endScope (x : ℕ)
  deriving DecidableEq, Repr

namespace OptionalStmt

open OptionalStorage

variable {V : Type}

def uses : OptionalStmt V → List (Option ℕ)
  | initCopy _ r => [some r]
  | initMove _ r => [some r]
  | assignValue x _ _ => [some x]
  | assignCopy x r => [some x, some r]
  | assignMove x r => [some x, some r]
  | assignOther x _ _ _ => [some x]
  | swap x y => [some x, some y]
  | read x => [some x]
  | endScope x => [some x]
  | _ => []

def declares : OptionalStmt V → Option (Option ℕ)
  | initValue x _ _ => some (some x)
  | initEmpty x => some (some x)
  | initCopy x _ => some (some x)
  | initMove x _ => some (some x)
  | initOther x _ _ => some (some x)
  | _ => none

def body (T : OptionalTypes V) : OptionalStmt V → OptionalAct V Unit
  | initValue x source v => OptionalStorage.initValue T (some x) source v
  | initEmpty x => OptionalStorage.initEmpty (some x)
  | initCopy x r => constructFrom T (some x) (.named false (some r))
  | initMove x r => constructFrom T (some x) (.named true (some r))
  | initOther x source c => constructFrom T (some x) (.other source c)
  | assignValue x source v => OptionalStorage.assignValue T (some x) source v
  | assignCopy x r => assignFromOptional T (some x) (.named false (some r))
  | assignMove x r => moveAssign T (some x) (some r)
  | assignOther x source constructed c =>
    OptionalStorage.assignOther T (some x) source constructed c
  | swap x y => OptionalStorage.swap T (some x) (some y)
  | read x => OptionalStorage.read (some x)
  | endScope x => OptionalStorage.endScope T (some x)

def exec (T : OptionalTypes V) (c : OptionalStmt V) : OptionalAct V Unit :=
  (c.body T).onlyIf fun s => Store.possible c.uses c.declares s.vars

end OptionalStmt

/-- What `Optional` has or has not, as its type allows it. -/
inductive OptionalMember where
  | initCopy
  | initMove
  | initOther (source : ℕ)
  | assignValue (source : ℕ)
  | assignCopy
  | assignMove
  | assignOther (source constructed : ℕ)
  | swap
  deriving DecidableEq, Repr

def OptionalStmt.member {V : Type} : OptionalStmt V → Option OptionalMember
  | initCopy _ _ => some .initCopy
  | initMove _ _ => some .initMove
  | initOther _ source _ => some (.initOther source)
  | assignValue _ source _ => some (.assignValue source)
  | assignCopy _ _ => some .assignCopy
  | assignMove _ _ => some .assignMove
  | assignOther _ source constructed _ => some (.assignOther source constructed)
  | swap _ _ => some .swap
  | _ => none

end Pimc
