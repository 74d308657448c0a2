/-!
# The Join/Prune configuration (config/JPConfig.hpp)

The classes are templates over the IP version; here they are generic in its
address type.
-/

namespace Pimc

/-- `class RPT`: the rendezvous point and the RPT-pruned sources of a group. -/
structure RPT (A : Type) where
  rp : A
  prunes : List A
  deriving DecidableEq, Repr

/-- `class GroupConfig`: the configuration of one multicast group. -/
structure GroupConfig (A : Type) where
  group : A
  rpt : Option (RPT A)
  spt : List A
  deriving DecidableEq, Repr

/-- `class JPConfig`. -/
structure JPConfig (A : Type) where
  groups : List (GroupConfig A)
  deriving DecidableEq, Repr

namespace JPConfig

variable {A : Type}

/-- No two groups share a multicast address. -/
def DistinctGroups (cfg : JPConfig A) : Prop := (cfg.groups.map (·.group)).Nodup

instance [DecidableEq A] (cfg : JPConfig A) : Decidable cfg.DistinctGroups :=
  inferInstanceAs (Decidable (List.Nodup _))

end JPConfig

namespace GroupConfig

variable {A : Type}

/-- The RPT-pruned sources of the group; none without an RPT. -/
def prunes (g : GroupConfig A) : List A :=
  match g.rpt with
  | none => []
  | some rpt => rpt.prunes

/-- A group with neither an RPT nor an SPT source asks for no state at all. -/
def Degenerate (g : GroupConfig A) : Prop := g.rpt = none ∧ g.spt = []

end GroupConfig

end Pimc
