import TopChain.Sync.SyncStore

/-!
# Batches of blocks (`xsync/src/xaccount.cpp`, `on_response_event`)

On the chains of the elections every block of a batch is verified.
-/
namespace TopChain.Sync

open TopChain.Base

inductive ResultCode where
  | success | exist | pendingAuth | failed | forked
deriving DecidableEq, Repr

def batchFlags {S : SyncStore} (count i : Nat) (p : BlockPtr S) : BlockPtr S :=
  let b := p.block.setBlockFlag .authenticated
  let b := if 1 < count - i then b.setBlockFlag .locked else b
  let b := if 2 < count - i then b.setBlockFlag .committed else b
  { p with block := b }

namespace SyncState
variable {S : SyncStore} (env : SyncEnv)

def isElectChain (address : String) : Bool :=
  let accountPrefix := (env.extractParts address).2
  accountPrefix = beaconTableBlockAddr ∨ accountPrefix = zecTableBlockAddr

def passBlock (s : SyncState S) (address : String) (current : XvBlock) (p : BlockPtr S) :
    SyncState S × ResultCode :=
  if p.block.height < current.height ∨
      (current.height = p.block.height ∧ current.blockHash = p.block.blockHash) then
    (s, .exist)
  else
    match s.storeBlock p with
    | (s, _, false) => (s, .failed)
    | (s, _, true) =>
      let now := s.getCurrentBlock address
      (now.1, if now.2.height < current.height then .forked else .success)

def handleSyncedBlock (s : SyncState S) (address : String) (current : XvBlock)
    (p : BlockPtr S) : SyncState S × ResultCode :=
  if isElectChain env address then
    match s.checkAuth env p with
    | (s, p, true) => s.passBlock address current p
    | (s, _, false) => (s, .pendingAuth)
  else s.passBlock address current p

def handleBatch (address : String) : List (BlockPtr S) → SyncState S → SyncState S
  | [], s => s
  | p :: rest, s =>
    let current := s.getCurrentBlock address
    match current.1.handleSyncedBlock env address current.2 p with
    | (s, .success) | (s, .exist) => handleBatch address rest s
    | (s, _) => s

def onResponseEvent (s : SyncState S) (address : String) (blocks : List (BlockPtr S)) :
    SyncState S :=
  if !env.chainExists address || !env.hasRequest address then s
  else if isElectChain env address then s.handleBatch env address blocks
  else
    match blocks.getLast? with
    | none => s
    | some last =>
      match s.checkAuth env last with
      | (s, _, false) => s
      | (s, _, true) => s.handleBatch env address (blocks.mapIdx (batchFlags blocks.length))

end SyncState
end TopChain.Sync
