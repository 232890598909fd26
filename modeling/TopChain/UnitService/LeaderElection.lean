import TopChain.Base.Block

/-!
# Leader election (`xunit_service/src/xleader_election.cpp`)

`xrotate_leader_election::get_leader_xip`, the election the consensus service is built with.
-/
namespace TopChain.UnitService

open TopChain.Base

def consensusZone : UInt64 := 0
def beaconZone : UInt64 := 1
def zecZone : UInt64 := 2

def isAuditor (xip : Xvip2) : Bool := 1 ≤ xip.groupId && xip.groupId < 64

structure ElectData where
  xip : Xvip2
  joinedVersion : UInt64
  staking : UInt64
deriving DecidableEq

inductive RotateMode where
  | noRotate | rotateByLastBlock | rotateByViewId
deriving DecidableEq, Repr

structure LeaderElection where
  getElection : Xvip2 → List ElectData
  getParentElection : Xvip2 → List ElectData
  getGroupElection : Xvip2 → UInt16 → List ElectData
  xidFromAccount : String → UInt64
  groupidByAccount : Xvip2 → String → UInt16
  leaderElectionRound : UInt32
  select : List (UInt64 × Xvip2) → UInt64 → Xvip2

namespace LeaderElection
variable (el : LeaderElection)

def reliable (version : UInt64) (n : ElectData) : Bool :=
  version ≥ n.joinedVersion + el.leaderElectionRound.toUInt64 || n.joinedVersion = 0

def noLeader : Xvip2 := ⟨0xFFFFFFFFFFFFFFFF, 0xFFFFFFFFFFFFFFFF⟩

def getLeader (nodes : List ElectData) (version factor : UInt64) : Xvip2 :=
  if nodes.isEmpty then noLeader
  else
    let weigh := fun n : ElectData => (n.staking + 1, n.xip)
    let reliableCandidates := (nodes.filter (el.reliable version)).map weigh
    let candidates := (nodes.filter (fun n => !el.reliable version n)).map weigh
    if !reliableCandidates.isEmpty then el.select reliableCandidates factor
    else el.select candidates factor

def isRotateXip (xip : Xvip2) : Bool := xip.zoneId = consensusZone

def electSet (prevIsValidator : Bool) (account : String) (xip : Xvip2) : List ElectData :=
  match prevIsValidator, isAuditor xip with
  | true, true => el.getElection xip
  | true, false => el.getParentElection xip
  | false, true => el.getGroupElection xip (el.groupidByAccount xip account)
  | false, false => el.getElection xip

def getLeaderXip (viewid : UInt64) (account : String) (prevBlock : XvBlock) (xip : Xvip2)
    (version : UInt64) (mode : RotateMode) : Xvip2 :=
  let random := viewid + el.xidFromAccount account
  let nodes := match mode with
    | .noRotate => el.getElection xip
    | .rotateByLastBlock =>
      if isRotateXip xip then
        -- a group address in place of the validator: an auditor led the last block
        el.electSet (prevBlock.validator.nodeId ≠ 0x3FF) account xip
      else el.getElection xip
    | .rotateByViewId =>
      if isRotateXip xip then el.electSet (viewid &&& 1 ≠ 0) account xip
      else el.getElection xip
  el.getLeader nodes version random

end LeaderElection
end TopChain.UnitService
