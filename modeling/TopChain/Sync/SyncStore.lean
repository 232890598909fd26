import TopChain.Store.ChainAccount
import Mathlib.Data.String.Basic

/-!
# The block store as sync uses it (`xsync_store.h`, `xentire_block.hpp`, `xsync_util.cpp`)

Once a block is passed to the store, the store holds the same object and may set flags on it.
-/
namespace TopChain.Sync

open TopChain.Base TopChain.Lib

structure SyncStore where
  State : Type
  Obj : Type
  storeBlock : State → XvBlock → State × Obj × Bool
  storeAgain : State → Obj → State × Bool
  flags : State → Obj → Finset BlockFlag
  setBlockFlag : State → Obj → BlockFlag → State
  getCurrentBlock : State → String → State × XvBlock
  getLatestCertBlock : State → String → State × XvBlock

structure BlockPtr (S : SyncStore) where
  block : XvBlock
  obj : Option S.Obj

def readBlock {S : SyncStore} (wire : XvBlock) : BlockPtr S := ⟨wire.resetBlockFlags, none⟩

/-- Messages, signatures found good, and blocks passed to `store_block`, newest first. -/
inductive SyncOutput (S : SyncStore) where
  | received (blocks : List XvBlock)
  | verified (block : XvBlock)
  | passed (block : XvBlock) (obj : S.Obj) (again : Bool) (flags : Finset BlockFlag)

/-- What a step finds outside of sync. -/
structure SyncEnv where
  verifyMutiSign : BlockBody → String → Bool
  chainExists : String → Bool
  hasRequest : String → Bool
  isTableAddress : String → Bool
  extractParts : String → Bool × String
  now : Int

def beaconTableBlockAddr : String := "Ta00013T7BKn5pP8Zi3K5z2Z5BQuSXTf5u37Se79x"

def zecTableBlockAddr : String := "Ta00025E3y1TBsbnvZHcq1eELBBQH4D5tFbg1jQqY"

def shardingTableBlockAddr : String := "Ta0000gRD2qVpp2S7UpjAsznRiRhbE1qNnhMbEDp"

def SyncEnv.isBeaconTable (env : SyncEnv) (address : String) : Bool :=
  (env.extractParts address).1 ∧ (env.extractParts address).2 = beaconTableBlockAddr

inductive PendingType where
  | consensus | gossip | newblock | newblockhash
deriving DecidableEq, Repr

structure PendingBlock (S : SyncStore) where
  type : PendingType
  block : BlockPtr S

structure ChainFetcherInfo (S : SyncStore) where
  blocks : SortedMap UInt64 (PendingBlock S)
  startHeight : UInt64
  checkTime : Int

structure FetchContext where
  type : PendingType
  tm : Int

inductive FetcherEvent (S : SyncStore) where
  | consensus (block : BlockPtr S)
  | newblock (block : BlockPtr S)
  | info (type : PendingType) (address : String) (height viewid : UInt64)
  | blocks (block : BlockPtr S)
  | timer
  | downloaderComplete (address : String)

structure SyncState (S : SyncStore) where
  store : S.State
  chains : SortedMap String (ChainFetcherInfo S)
  fetchingList : SortedMap String FetchContext
  fetcherEvents : List (FetcherEvent S)
  responses : List (List (BlockPtr S))
  log : List (SyncOutput S)

namespace SyncState
variable {S : SyncStore}

def checkAuth (env : SyncEnv) (s : SyncState S) (p : BlockPtr S) :
    SyncState S × BlockPtr S × Bool :=
  if env.verifyMutiSign p.block.toBlockBody p.block.blockHash then
    ({ s with
        store := match p.obj with
          | some o => S.setBlockFlag s.store o .authenticated
          | none => s.store
        log := .verified p.block :: s.log },
      { p with block := p.block.setBlockFlag .authenticated }, true)
  else
    (s, p, false)

def storeBlock (s : SyncState S) (p : BlockPtr S) : SyncState S × BlockPtr S × Bool :=
  match p.obj with
  | none =>
    let r := S.storeBlock s.store p.block
    ({ s with store := r.1, log := .passed p.block r.2.1 false p.block.flags :: s.log },
      { p with obj := some r.2.1 }, r.2.2)
  | some o =>
    let r := S.storeAgain s.store o
    ({ s with store := r.1, log := .passed p.block o true (S.flags s.store o) :: s.log },
      p, r.2)

def getCurrentBlock (s : SyncState S) (address : String) : SyncState S × XvBlock :=
  let r := S.getCurrentBlock s.store address
  ({ s with store := r.1 }, r.2)

def getLatestCertBlock (s : SyncState S) (address : String) : SyncState S × XvBlock :=
  let r := S.getLatestCertBlock s.store address
  ({ s with store := r.1 }, r.2)

def putChain (s : SyncState S) (address : String) (chain : ChainFetcherInfo S) : SyncState S :=
  { s with chains := s.chains.insert address chain }

end SyncState

/-- The block store of the node; the timer account is not among its accounts. -/
def chainStore (env : String → Store.StoreEnv) (fuel : Nat) : SyncStore where
  State := String → Store.ChainAccount
  Obj := String × Store.Ptr
  storeBlock s b :=
    let r := (do
      let p ← Store.ChainAccount.newObject b
      return (p, ← Store.ChainAccount.storeBlock (env b.account) fuel p)).run (s b.account)
    (Function.update s b.account r.2, (b.account, r.1.1), r.1.2)
  storeAgain s o :=
    let r := (Store.ChainAccount.storeBlock (env o.1) fuel o.2).run (s o.1)
    (Function.update s o.1 r.2, r.1)
  flags s o := ((s o.1).objects.getD o.2 default).block.flags
  setBlockFlag s o f :=
    Function.update s o.1 ((Store.ChainAccount.setBlockFlag (env o.1) o.2 f).run (s o.1)).2
  getCurrentBlock s address :=
    let r := (Store.ChainAccount.getLatestCurrentBlock (env address) fuel).run (s address)
    (Function.update s address r.2, (r.2.objects.getD r.1 default).block)
  getLatestCertBlock s address :=
    let r := (Store.ChainAccount.getLatestCertBlock (env address) fuel).run (s address)
    (Function.update s address r.2, (r.2.objects.getD r.1 default).block)

end TopChain.Sync
