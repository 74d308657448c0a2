import Pimc.Config.JPConfig
import Pimc.Net.IPv4Address
import Pimc.Pimsm.Update

/-!
# The configuration of a run (config/PIMSMConfig.hpp, config/PIMCConfig.hpp)
-/

namespace Pimc

structure PIMSMConfig (A : Type) where
  neighbor : A
  intfAddr : A
  helloPeriod : BitVec 16
  helloHoldtime : BitVec 16
  jpPeriod : BitVec 32
  jpHoldtime : BitVec 16
  drPriority : BitVec 32
  generationId : BitVec 32

structure PIMCConfig (A : Type) where
  pimsmConfig : PIMSMConfig A
  updates : List (Update A)
  inverseUpdates : List (Update A)

end Pimc
