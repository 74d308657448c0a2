import Pimc.Lib.Outcome

/-!
# The reference packer of the test generator (pimc_testgen/pimsm: group.py, update.py, pack.py)

A Python exception is `throws`, with the text of the exception. Updates are
compared and changed by reference, so a reference to an update is its index in
the list of updates.
-/

namespace Pimc.TestGen

open Lib

variable {A : Type}

/-! ### group.py -/

/-- `class Group`. -/
structure Group (A : Type) where
  addr : A
  joinedSources : List A
  rp : Option A
  rptPrunedSources : List A
  deriving DecidableEq, Repr

namespace Group

def init (maddr : A) : Group A := ⟨maddr, [], none, []⟩

section Build

variable [LinearOrder A] [ToString A]

def join (g : Group A) (sources : List A) : Group A :=
  { g with joinedSources := (g.joinedSources ++ sources).mergeSort (· ≤ ·) }

def joinRp (g : Group A) (rp : A) : Outcome String (Group A) :=
  let addr := g.addr
  if g.rp.isSome then .throws s!"Group {addr}: RP already joined"
  else .ret { g with rp := some rp }

def rptPrune (g : Group A) (sources : List A) : Outcome String (Group A) :=
  let addr := g.addr
  if g.rp.isNone then .throws s!"Group {addr}: RP must be set before pruning sources from rpt"
  else
    let g := { g with rptPrunedSources := (g.rptPrunedSources ++ sources).mergeSort (· ≤ ·) }
    let len := g.rptPrunedSources.length
    if len > 180 then
      .throws <| s!"group {addr} has {len} RPT pruned sources, " ++
        "which is greater than 180, the maximum number of RPT pruned sources"
    else .ret g

def size (g : Group A) : Outcome String ℤ :=
  let addr := g.addr
  if g.joinedSources.length = 0 ∧ g.rp = none then
    .throws s!"group {addr}: no remaining sources and no RPT"
  else .ret (12 + (g.joinedSources.length : ℤ) * 8 + (if g.rp.isSome then 8 else 0) +
    (g.rptPrunedSources.length : ℤ) * 8)

def hasJoinedSources (g : Group A) : Bool := g.joinedSources.length > 0

def hasRpt (g : Group A) : Bool := g.rp.isSome

def rptSize (g : Group A) : ℤ :=
  if g.rp.isNone then 0 else 12 + ((g.rptPrunedSources.length : ℤ) + 1) * 8

def rpAndPrunesSize (g : Group A) : Outcome String ℤ :=
  let addr := g.addr
  if g.rp.isNone then .throws s!"group {addr}: no RPT"
  else .ret (((g.rptPrunedSources.length : ℤ) + 1) * 8)

def takeSgJoins (g : Group A) (count : ℤ) : Outcome String (Group A × Group A) :=
  let addr := g.addr
  if count < 1 then
    .throws s!"group {addr}: invalid number of joins to take {count}, must greater than 0"
  else
    let count := if count > g.joinedSources.length then (g.joinedSources.length : ℤ) else count
    if g.joinedSources.length = 0 then .throws s!"group {addr}: no remaining sources"
    else do
      let a := (init addr).join (g.joinedSources.take count.toNat)
      let b :=
        if count < g.joinedSources.length then
          (init addr).join (g.joinedSources.drop count.toNat)
        else init addr
      match g.rp with
      | none => return (a, b)
      | some rp =>
        let b ← b.joinRp rp
        let b ← b.rptPrune g.rptPrunedSources
        return (a, b)

def takeSgJoinsAndRpt (g : Group A) (count : ℤ) : Outcome String (Group A × Group A) :=
  let addr := g.addr
  if count < 0 then
    .throws <| s!"group {addr}: {count} is invalid number of joins to take, " ++
      "must greater than or equal to 0"
  else
    match g.rp with
    | none => .throws s!"group {addr}: no RPT"
    | some rp => do
      let count := if count > g.joinedSources.length then (g.joinedSources.length : ℤ) else count
      let a ← ((init addr).join (g.joinedSources.take count.toNat)).joinRp rp
      let a ← a.rptPrune g.rptPrunedSources
      let b := (init addr).join (g.joinedSources.drop count.toNat)
      return (a, b)

end Build

end Group

/-! ### update.py -/

/-- `class Update`. -/
structure Update (A : Type) where
  maxSize : ℤ
  groups : List (Group A)
  deriving DecidableEq, Repr

namespace Update

def init : Update A := ⟨1466, []⟩

variable [ToString A]

def size (u : Update A) : Outcome String ℤ :=
  u.groups.foldlM (fun sum g => do
    let sz ← g.size
    return sum + sz) 0

def remaining (u : Update A) : Outcome String ℤ := do
  let sz ← u.size
  return u.maxSize - sz

def add (u : Update A) (g : Group A) : Outcome String (Update A) := do
  let addr := g.addr
  let r ← u.remaining
  let gsz ← g.size
  if gsz > r then
    .throws <| s!"size of group {addr} is {gsz}, which is greater " ++
      s!"than the remaining space in this update ({r})"
  else return { u with groups := u.groups ++ [g] }

def empty (u : Update A) : Bool := u.groups.length = 0

def full (u : Update A) : Outcome String Bool := do
  let r ← u.remaining
  return r < 20

end Update

/-! ### pack.py -/

-- The division is one of floats; `int` cuts it off towards zero.
def maxSources (sz : ℤ) : ℤ := (sz - 12).tdiv 8

/-- `class _PackBuilder`. -/
structure PackBuilder (A : Type) where
  updates : List (Update A)
  deriving Repr

namespace PackBuilder

def init : PackBuilder A := ⟨[.init]⟩

/-- The updates after the generator has yielded update `i`. -/
def uq (updates : List (Update A)) (i : ℕ) : List (Update A) :=
  if i < updates.length then updates else updates ++ [.init]

variable [LinearOrder A] [ToString A]

/-- What the search reads and writes. -/
structure FindLoop (A : Type) where
  updates : List (Update A)
  i : ℕ
  found : Bool

def findBody (rptSz : ℤ) (s : FindLoop A) : Outcome String (FindLoop A) := do
  let updates := uq s.updates s.i
  let u := updates.getD s.i .init
  let r ← u.remaining
  if r ≥ rptSz then return ⟨updates, s.i, true⟩
  else return ⟨updates, s.i + 1, false⟩

def findUpdateForRpt (fuel : ℕ) (pb : PackBuilder A) (g : Group A) :
    Outcome String (PackBuilder A × Option ℕ) :=
  if !g.hasRpt then return (pb, none)
  else
    let addr := g.addr
    let len := g.rptPrunedSources.length
    let rptSz := g.rptSize
    let maxSize := (pb.updates.getD 0 .init).maxSize
    if rptSz > maxSize then
      .throws <| s!"group {addr}: has {len} Prune(S,G,rpt) entries, " ++
        s!"which results in encoded size {rptSz}, which is greater than the " ++
        s!"maximum available size {maxSize} in any update"
    else do
      let s ← whileLoop (fun s => !s.found) (findBody rptSz) fuel ⟨pb.updates, 0, false⟩
      return (⟨s.updates⟩, some s.i)

/-- What the loop of `place` reads and writes. -/
structure PlaceLoop (A : Type) where
  updates : List (Update A)
  i : ℕ
  g : Group A
  rptUpdate : Option ℕ
  done : Bool

def placeBody (s : PlaceLoop A) : Outcome String (PlaceLoop A) := do
  let updates := uq s.updates s.i
  let u := updates.getD s.i .init
  let full ← u.full
  if full then return ⟨updates, s.i + 1, s.g, s.rptUpdate, false⟩
  else if s.rptUpdate ≠ some s.i then
    let r ← u.remaining
    let nsrc := maxSources r
    let (a, b) ← s.g.takeSgJoins nsrc
    let u ← u.add a
    return ⟨updates.set s.i u, s.i + 1, b, s.rptUpdate, !b.hasJoinedSources⟩
  else
    let rptSz ← s.g.rpAndPrunesSize
    let r ← u.remaining
    let nsrc := maxSources (r - rptSz)
    let (a, b) ← s.g.takeSgJoinsAndRpt nsrc
    let u ← u.add a
    return ⟨updates.set s.i u, s.i + 1, b, none, !b.hasJoinedSources⟩

def placeLoop (fuel : ℕ) (pb : PackBuilder A) (g : Group A) (rptUpdate : Option ℕ) :
    Outcome String (PlaceLoop A) :=
  if g.hasJoinedSources then
    whileLoop (fun s => !s.done) placeBody fuel ⟨pb.updates, 0, g, rptUpdate, false⟩
  else .ret ⟨pb.updates, 0, g, rptUpdate, true⟩

def place (fuel : ℕ) (pb : PackBuilder A) (g : Group A) : Outcome String (PackBuilder A) := do
  let (pb, rptUpdate) ← findUpdateForRpt fuel pb g
  let s ← placeLoop fuel pb g rptUpdate
  match s.rptUpdate with
  | none => return ⟨s.updates⟩
  | some k => do
    let u ← (s.updates.getD k .init).add s.g
    return ⟨s.updates.set k u⟩

def result (pb : PackBuilder A) : List (Update A) :=
  if (pb.updates.getLastD .init).empty then pb.updates.dropLast else pb.updates

end PackBuilder

def pack [LinearOrder A] [ToString A] (fuel : ℕ) (groups : List (Group A)) :
    Outcome String (List (Update A)) := do
  let pb ← groups.foldlM (PackBuilder.place fuel) PackBuilder.init
  return pb.result

end Pimc.TestGen
