import Pimc.TestGen.Pack

/-!
# The reference for inverse packing (pimc_testgen/pimsm: inverse_group.py, inverse_update.py, inverse_pack.py)
-/

namespace Pimc.TestGen

open Lib

variable {A : Type}

/-! ### inverse_group.py -/

/-- `class InverseGroup`. -/
structure InverseGroup (A : Type) where
  addr : A
  prunedSources : List A
  prunedRp : Option A
  deriving DecidableEq, Repr

namespace InverseGroup

def init (maddr : A) : InverseGroup A := ⟨maddr, [], none⟩

section Build

variable [LinearOrder A] [ToString A]

def prune (g : InverseGroup A) (sources : List A) : InverseGroup A :=
  { g with prunedSources := (g.prunedSources ++ sources).mergeSort (· ≤ ·) }

def pruneRp (g : InverseGroup A) (rp : A) : Outcome String (InverseGroup A) :=
  let addr := g.addr
  if g.prunedRp.isSome then .throws s!"InverseGroup {addr}: RP already pruned"
  else .ret { g with prunedRp := some rp }

def size (g : InverseGroup A) : Outcome String ℤ :=
  let addr := g.addr
  if g.prunedSources.length = 0 ∧ g.prunedRp = none then
    .throws s!"group {addr}: no remaining pruned sources and no pruned RPT"
  else .ret (12 + (g.prunedSources.length : ℤ) * 8 + (if g.prunedRp.isSome then 8 else 0))

def hasPrunedSources (g : InverseGroup A) : Bool :=
  g.prunedSources.length > 0 || g.prunedRp.isSome

-- The RP is counted before the sources, and `count` may become 0 then.
def takePrunes (g : InverseGroup A) (count : ℤ) :
    Outcome String (InverseGroup A × InverseGroup A) :=
  let addr := g.addr
  if count < 1 then
    .throws <| s!"group {addr}: {count} is invalid number of prunes to take , " ++
      "must greater than 0"
  else if !g.hasPrunedSources then .throws s!"group {addr}: no remaining pruned sources"
  else do
    let a ← match g.prunedRp with
      | none => .ret (init addr)
      | some rp => (init addr).pruneRp rp
    let count := if g.prunedRp.isSome then count - 1 else count
    let count := if count > g.prunedSources.length then (g.prunedSources.length : ℤ) else count
    let a := a.prune (g.prunedSources.take count.toNat)
    let b := (init addr).prune (g.prunedSources.drop count.toNat)
    return (a, b)

end Build

end InverseGroup

/-! ### inverse_update.py -/

/-- `class InverseUpdate`. -/
structure InverseUpdate (A : Type) where
  maxSize : ℤ
  groups : List (InverseGroup A)
  deriving DecidableEq, Repr

namespace InverseUpdate

def init : InverseUpdate A := ⟨1466, []⟩

variable [ToString A]

def size (u : InverseUpdate A) : Outcome String ℤ :=
  u.groups.foldlM (fun sum g => do
    let sz ← g.size
    return sum + sz) 0

def remaining (u : InverseUpdate A) : Outcome String ℤ := do
  let sz ← u.size
  return u.maxSize - sz

def add (u : InverseUpdate A) (g : InverseGroup A) : Outcome String (InverseUpdate A) := do
  let addr := g.addr
  let r ← u.remaining
  let gsz ← g.size
  if gsz > r then
    .throws <| s!"size of group {addr} is {gsz}, which is greater " ++
      s!"than the remaining space in this update ({r})"
  else return { u with groups := u.groups ++ [g] }

def empty (u : InverseUpdate A) : Bool := u.groups.length = 0

def full (u : InverseUpdate A) : Outcome String Bool := do
  let r ← u.remaining
  return r < 20

end InverseUpdate

/-! ### inverse_pack.py -/

/-- `class _InversePackBuilder`. -/
structure InversePackBuilder (A : Type) where
  updates : List (InverseUpdate A)
  deriving Repr

namespace InversePackBuilder

def init : InversePackBuilder A := ⟨[.init]⟩

/-- The updates after the generator has yielded update `i`. -/
def uq (updates : List (InverseUpdate A)) (i : ℕ) : List (InverseUpdate A) :=
  if i < updates.length then updates else updates ++ [.init]

variable [LinearOrder A] [ToString A]

/-- What the loop of `place` reads and writes. -/
structure PlaceLoop (A : Type) where
  updates : List (InverseUpdate A)
  i : ℕ
  g : InverseGroup A
  done : Bool

def placeBody (s : PlaceLoop A) : Outcome String (PlaceLoop A) := do
  let updates := uq s.updates s.i
  let u := updates.getD s.i .init
  let full ← u.full
  if full then return ⟨updates, s.i + 1, s.g, false⟩
  else
    let r ← u.remaining
    let nsrc := maxSources r
    let (a, b) ← s.g.takePrunes nsrc
    let u ← u.add a
    return ⟨updates.set s.i u, s.i + 1, b, !b.hasPrunedSources⟩

def place (fuel : ℕ) (pb : InversePackBuilder A) (g : InverseGroup A) :
    Outcome String (InversePackBuilder A) :=
  if g.hasPrunedSources then do
    let s ← whileLoop (fun s => !s.done) placeBody fuel ⟨pb.updates, 0, g, false⟩
    return ⟨s.updates⟩
  else .ret pb

def result (pb : InversePackBuilder A) : List (InverseUpdate A) :=
  if (pb.updates.getLastD .init).empty then pb.updates.dropLast else pb.updates

end InversePackBuilder

/-- `_inverse`. -/
def inverse (g : Group A) : InverseGroup A := ⟨g.addr, [] ++ g.joinedSources, g.rp⟩

def inversePack [LinearOrder A] [ToString A] (fuel : ℕ) (groups : List (Group A)) :
    Outcome String (List (InverseUpdate A)) := do
  let pb ← groups.foldlM (fun pb g => pb.place fuel (inverse g)) InversePackBuilder.init
  return pb.result

end Pimc.TestGen
