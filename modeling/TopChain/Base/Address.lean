import TopChain.Lib.Word

/-!
# Network addresses (`xbase/xbase.h`)

`xvip2_t`: election height and group size in the high word, the address in the low word.
-/
namespace TopChain.Base

open TopChain.Lib Word

structure Xvip2 where
  low : UInt64
  high : UInt64
deriving DecidableEq, Repr, Inhabited

namespace Xvip2
variable (a : Xvip2)

def networkId : UInt64 := (a.low >>> 32) &&& 0x1FFFFF
def zoneId : UInt64 := (a.low >>> 25) &&& 0x7F
def clusterId : UInt64 := (a.low >>> 18) &&& 0x7F
def groupId : UInt64 := (a.low >>> 10) &&& 0xFF
def nodeId : UInt64 := a.low &&& 0x3FF
def groupNodesCount : UInt64 := (a.high >>> 54) &&& 0x3FF
def networkHeight : UInt64 := a.high &&& 0x3FFFFFFFFFFFFF

theorem networkId_toNat : a.networkId.toNat = a.low.toNat / 2 ^ 32 % 2 ^ 21 :=
  field_toNat a.low rfl rfl

theorem zoneId_toNat : a.zoneId.toNat = a.low.toNat / 2 ^ 25 % 2 ^ 7 := field_toNat a.low rfl rfl

theorem clusterId_toNat : a.clusterId.toNat = a.low.toNat / 2 ^ 18 % 2 ^ 7 :=
  field_toNat a.low rfl rfl

theorem groupId_toNat : a.groupId.toNat = a.low.toNat / 2 ^ 10 % 2 ^ 8 := field_toNat a.low rfl rfl

theorem networkHeight_toNat : a.networkHeight.toNat = a.high.toNat % 2 ^ 54 :=
  and_mask_toNat a.high rfl

end Xvip2
end TopChain.Base
