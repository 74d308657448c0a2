import Mathlib.Data.Sum.Basic
import Pimc.Lib.Throwing

/-!
# The storage of a result (lib/pimc/core/Result.hpp)

`ResultAlt` keeps a value or an error in a union and a flag that says which. The
flag of a storage that is built from `std::monostate` is not set. When both types are
trivially destructible `destroy` does nothing, and building over an object ends its
lifetime. A program is a list of statements over named results; an exception that
leaves a statement is handled after it. `none` is the name of the local of `swap`.
-/

namespace Pimc

open Lib Act Store

inductive Alternative where
  | value
  | error
  deriving DecidableEq, Repr

/-- The operations that the type of an object supplies. The types that it can be converted from are
numbered: `convert` builds an object from one of them, `convertAssign` assigns from it. -/
inductive ObjectOp where
  | copy
  | move
  | convert (source : ℕ)
  | copyAssign
  | moveAssign
  | convertAssign (source : ℕ)
  | swap
  deriving DecidableEq, Repr

/-- What the types declare: whether both are trivially destructible, and their exception
specifications. -/
structure ResultSpec where
  triviallyDestructible : Bool
  mayThrow : Alternative → ObjectOp → Bool

/-- What the operations of the types do, and what is left of an object that is moved from. -/
structure ResultTypes (V E : Type) extends ResultSpec where
  throws : ℕ → Alternative × ObjectOp → Bool
  declared : ∀ k alt op, throws k (alt, op) = true → mayThrow alt op = true
  movedValue : V → V
  movedError : E → E

/-- The argument that a storage is built or assigned from: a variable, or one of other types, with
the contents `c` once they are converted. -/
inductive Passed (C : Type) where
  | named (rvalue : Bool) (r : Option ℕ)
  | other (source : ℕ) (c : C)

namespace Passed

variable {C : Type}

def ctor : Passed C → ObjectOp
  | named rvalue _ => if rvalue then .move else .copy
  | other source _ => .convert source

def assign : Passed C → ObjectOp
  | named rvalue _ => if rvalue then .moveAssign else .copyAssign
  | other source _ => .convertAssign source

end Passed

structure ResultAlt (V E : Type) where
  live : Option (V ⊕ E)
  hasValue : Option Bool
  deriving DecidableEq, Repr

abbrev Results (V E : Type) := Store (Option ℕ) (ResultAlt V E)

/-- A function over results. -/
abbrev ResultAct (V E α : Type) := Act Misuse (Results V E) α

namespace ResultStorage

variable {V E : Type} (T : ResultTypes V E)

def hasValue (x : Option ℕ) : ResultAct V E Bool := do
  match (← get x).hasValue with
  | some b => pure b
  | none => undefined .indeterminate

def value (x : Option ℕ) : ResultAct V E V := do
  match (← get x).live with
  | some (.inl v) => pure v
  | _ => undefined .notAlive

def error (x : Option ℕ) : ResultAct V E E := do
  match (← get x).live with
  | some (.inr e) => pure e
  | _ => undefined .notAlive

def hasValueOf : Passed (V ⊕ E) → ResultAct V E Bool
  | .named _ r => hasValue r
  | .other _ c => pure c.isLeft

def valueOf : Passed (V ⊕ E) → ResultAct V E V
  | .named _ r => value r
  | .other _ (.inl v) => pure v
  | .other _ (.inr _) => undefined .notAlive

def errorOf : Passed (V ⊕ E) → ResultAct V E E
  | .named _ r => error r
  | .other _ (.inr e) => pure e
  | .other _ (.inl _) => undefined .notAlive

def destroy (x : Option ℕ) : ResultAct V E Unit := do
  if T.triviallyDestructible then
    pure ()
  else if ← hasValue x then
    let _ ← value x
    set x ⟨none, some false⟩
  else
    let _ ← error x
    set x ⟨none, some false⟩

/-- The storage of `x` is used again. -/
def reuse (x : Option ℕ) : ResultAct V E Unit := do
  let a ← get x
  match a.live with
  | none => pure ()
  | some _ =>
    if T.triviallyDestructible then set x { a with live := none } else undefined .overwritten

def constructValue (op : ObjectOp) (x : Option ℕ) (v : V) : ResultAct V E Unit := do
  reuse T x
  operation T.throws (.value, op)
  set x ⟨some (.inl v), some true⟩

def constructError (op : ObjectOp) (x : Option ℕ) (e : E) : ResultAct V E Unit := do
  reuse T x
  operation T.throws (.error, op)
  set x ⟨some (.inr e), some false⟩

/-- A variable that is passed as an rvalue is moved from. -/
def leaveValue (r : Passed (V ⊕ E)) (v : V) : ResultAct V E Unit :=
  match r with
  | .named true r => set r ⟨some (.inl (T.movedValue v)), some true⟩
  | _ => pure ()

def leaveError (r : Passed (V ⊕ E)) (e : E) : ResultAct V E Unit :=
  match r with
  | .named true r => set r ⟨some (.inr (T.movedError e)), some false⟩
  | _ => pure ()

def constructFromResult (x : Option ℕ) (r : Passed (V ⊕ E)) : ResultAct V E Unit := do
  if ← hasValueOf r then
    let v ← valueOf r
    constructValue T r.ctor x v
    leaveValue T r v
  else
    let e ← errorOf r
    constructError T r.ctor x e
    leaveError T r e

def assignValue (x : Option ℕ) (source : ℕ) (v : V) : ResultAct V E Unit :=
  noexcept (!T.mayThrow .value (.convertAssign source)) do
    if not (← hasValue x) then
      destroy T x
      constructValue T (.convert source) x v
    else
      let _ ← value x
      operation T.throws (.value, .convertAssign source)
      set x ⟨some (.inl v), some true⟩

def assignError (x : Option ℕ) (source : ℕ) (e : E) : ResultAct V E Unit :=
  noexcept (!T.mayThrow .error (.convertAssign source)) do
    if ← hasValue x then
      destroy T x
      constructError T (.convert source) x e
    else
      let _ ← error x
      operation T.throws (.error, .convertAssign source)
      set x ⟨some (.inr e), some false⟩

def assignFromResult (x : Option ℕ) (r : Passed (V ⊕ E)) : ResultAct V E Unit := do
  let has ← hasValue x
  if has != (← hasValueOf r) then
    destroy T x
    constructFromResult T x r
  else if has then
    let _ ← value x
    let v ← valueOf r
    operation T.throws (.value, r.assign)
    set x ⟨some (.inl v), some true⟩
    leaveValue T r v
  else
    let _ ← error x
    let e ← errorOf r
    operation T.throws (.error, r.assign)
    set x ⟨some (.inr e), some false⟩
    leaveError T r e

/-- The storage of `x` is there before the exception, and its destructor runs. -/
def constructFrom (x : Option ℕ) (r : Passed (V ⊕ E)) : ResultAct V E Unit := do
  set x ⟨none, none⟩
  (constructFromResult T x r).unwinding do
    destroy T x
    drop x

def initValue (x : Option ℕ) (source : ℕ) (v : V) : ResultAct V E Unit := do
  operation T.throws (.value, .convert source)
  set x ⟨some (.inl v), some true⟩

def initError (x : Option ℕ) (source : ℕ) (e : E) : ResultAct V E Unit := do
  operation T.throws (.error, .convert source)
  set x ⟨some (.inr e), some false⟩

/-- The constructor from `Failure<E2>&&` promises what moving an `E` does. -/
def initFailure (x : Option ℕ) (source : ℕ) (e : E) : ResultAct V E Unit :=
  (initError T x source e).noexcept (!T.mayThrow .error .move)

end ResultStorage

namespace ResultSpec

def nothrowMoveAssignable (s : ResultSpec) : Bool :=
  !s.mayThrow .value .moveAssign && !s.mayThrow .error .moveAssign

/-- The promise of the assignment from a result of the types `source`, which asks for the types
`constructed` whether they construct without an exception: `T2 const&`, also where `T2&&` is
passed. -/
def nothrowAssignableFrom (s : ResultSpec) (source constructed : ℕ) : Bool :=
  !s.mayThrow .value (.convert constructed) && !s.mayThrow .error (.convert constructed) &&
    !s.mayThrow .value (.convertAssign source) && !s.mayThrow .error (.convertAssign source)

def nothrowSwap (s : ResultSpec) : Bool :=
  !s.mayThrow .value .move && !s.mayThrow .error .move && s.nothrowMoveAssignable &&
    !s.mayThrow .value .swap && !s.mayThrow .error .swap

end ResultSpec

namespace ResultStorage

variable {V E : Type} (T : ResultTypes V E)

def moveAssign (x r : Option ℕ) : ResultAct V E Unit :=
  (assignFromResult T x (.named true r)).noexcept T.nothrowMoveAssignable

def assignOther (x : Option ℕ) (source constructed : ℕ) (c : V ⊕ E) : ResultAct V E Unit :=
  (assignFromResult T x (.other source c)).noexcept (T.nothrowAssignableFrom source constructed)

/-- The flag and the object that it tells of are used. -/
def read (x : Option ℕ) : ResultAct V E Unit := do
  if ← hasValue x then
    let _ ← value x
    pure ()
  else
    let _ ← error x
    pure ()

def endScope (x : Option ℕ) : ResultAct V E Unit := do
  destroy T x
  drop x

def swap (x y : Option ℕ) : ResultAct V E Unit :=
  noexcept T.nothrowSwap do
    let has ← hasValue x
    if has == (← hasValue y) then
      if has then
        let v ← value x
        let w ← value y
        operation T.throws (.value, .swap)
        set x ⟨some (.inl w), some true⟩
        set y ⟨some (.inl v), some true⟩
      else
        let e ← error x
        let f ← error y
        operation T.throws (.error, .swap)
        set x ⟨some (.inr f), some false⟩
        set y ⟨some (.inr e), some false⟩
    else
      constructFrom T none (.named true x)
      inScope (do
        moveAssign T x y
        moveAssign T y none) (endScope T none)

end ResultStorage

/-! ### Programs -/

inductive ResultStmt (V E : Type) where
  | initValue (x source : ℕ) (v : V)
  | initError (x source : ℕ) (e : E)
  | initFailure (x source : ℕ) (e : E)
  | initCopy (x r : ℕ)
  | initMove (x r : ℕ)
  | initOther (x source : ℕ) (c : V ⊕ E)
  | assignValue (x source : ℕ) (v : V)
  | assignError (x source : ℕ) (e : E)
  | assignCopy (x r : ℕ)
  | assignMove (x r : ℕ)
  | assignOther (x source constructed : ℕ) (c : V ⊕ E)
  | swap (x y : ℕ)
  | read (x : ℕ)
  | endScope (x : ℕ)
  deriving DecidableEq, Repr

namespace ResultStmt

open ResultStorage

variable {V E : Type}

/-- The variables that have to be in scope. -/
def uses : ResultStmt V E → List (Option ℕ)
  | initCopy _ r => [some r]
  | initMove _ r => [some r]
  | assignValue x _ _ => [some x]
  | assignError x _ _ => [some x]
  | assignCopy x r => [some x, some r]
  | assignMove x r => [some x, some r]
  | assignOther x _ _ _ => [some x]
  | swap x y => [some x, some y]
  | read x => [some x]
  | endScope x => [some x]
  | _ => []

/-- The variable that is declared. -/
def declares : ResultStmt V E → Option (Option ℕ)
  | initValue x _ _ => some (some x)
  | initError x _ _ => some (some x)
  | initFailure x _ _ => some (some x)
  | initCopy x _ => some (some x)
  | initMove x _ => some (some x)
  | initOther x _ _ => some (some x)
  | _ => none

def body (T : ResultTypes V E) : ResultStmt V E → ResultAct V E Unit
  | initValue x source v => ResultStorage.initValue T (some x) source v
  | initError x source e => ResultStorage.initError T (some x) source e
  | initFailure x source e => ResultStorage.initFailure T (some x) source e
  | initCopy x r => constructFrom T (some x) (.named false (some r))
  | initMove x r => constructFrom T (some x) (.named true (some r))
  | initOther x source c => constructFrom T (some x) (.other source c)
  | assignValue x source v => ResultStorage.assignValue T (some x) source v
  | assignError x source e => ResultStorage.assignError T (some x) source e
  | assignCopy x r => assignFromResult T (some x) (.named false (some r))
  | assignMove x r => moveAssign T (some x) (some r)
  | assignOther x source constructed c =>
    ResultStorage.assignOther T (some x) source constructed c
  | swap x y => ResultStorage.swap T (some x) (some y)
  | read x => ResultStorage.read (some x)
  | endScope x => ResultStorage.endScope T (some x)

def exec (T : ResultTypes V E) (c : ResultStmt V E) : ResultAct V E Unit :=
  (c.body T).onlyIf fun s => Store.possible c.uses c.declares s.vars

end ResultStmt

/-- What `Result` has or has not, as its types allow it. The declarations from a value or an error,
the reads and the scope ends are always there. -/
inductive ResultMember where
  | initCopy
  | initMove
  | initOther (source : ℕ)
  | assignValue (source : ℕ)
  | assignError (source : ℕ)
  | assignCopy
  | assignMove
  | assignOther (source constructed : ℕ)
  | swap
  deriving DecidableEq, Repr

/-- The member that a statement needs. -/
def ResultStmt.member {V E : Type} : ResultStmt V E → Option ResultMember
  | initCopy _ _ => some .initCopy
  | initMove _ _ => some .initMove
  | initOther _ source _ => some (.initOther source)
  | assignValue _ source _ => some (.assignValue source)
  | assignError _ source _ => some (.assignError source)
  | assignCopy _ _ => some .assignCopy
  | assignMove _ _ => some .assignMove
  | assignOther _ source constructed _ => some (.assignOther source constructed)
  | swap _ _ => some .swap
  | _ => none

end Pimc
