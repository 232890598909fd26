import TopChain.Sync.SyncStore

/-!
# The block fetcher (`xsync/src/xblock_fetcher.cpp`)

New blocks of a chain wait in a queue by height until they fit on the current block.
-/
namespace TopChain.Sync

open TopChain.Base TopChain.Lib

def queueSize : Nat := 16

def fetcherTimeout : Int := 5000

def chainCheckInterval : Int := 600000

namespace SyncState
variable {S : SyncStore} (env : SyncEnv)

def getKey (address : String) (height : UInt64) : String := address ++ "_" ++ toString height

def getBlocks (s : SyncState S) (address : String) (height : UInt64) (type : PendingType) :
    SyncState S :=
  if height = 0 then s
  else
    match s.fetchingList.find? (getKey address height) with
    | some _ => s
    | none =>
      { s with fetchingList := s.fetchingList.insert (getKey address height) ⟨type, env.now⟩ }

def handleBlock (s : SyncState S) (type : PendingType) (p : BlockPtr S) : SyncState S :=
  let pass (s : SyncState S) (p : BlockPtr S) : SyncState S :=
    match s.storeBlock p with
    | (s, _, true) => s
    | (s, p, false) => (s.getCurrentBlock p.block.account).1
  -- a consensus result must not be stored again
  if type = .consensus then s
  else if env.isBeaconTable p.block.account then
    match s.checkAuth env p with
    | (s, p, true) => pass s p
    | (s, _, false) => s
  else pass s p

def processPending (address : String) :
    List (UInt64 × PendingBlock S) → SyncState S → SyncState S × Nat
  | [], s => (s, 0)
  | (_, pending) :: rest, s =>
    let current := s.getCurrentBlock address
    let b := pending.block.block
    let next (s : SyncState S) : SyncState S × Nat :=
      let r := processPending address rest s
      (r.1, r.2 + 1)
    if b.height < current.2.height then next current.1
    else if b.height = current.2.height then
      if current.2.viewid ≤ b.viewid then
        next (current.1.handleBlock env pending.type pending.block)
      else next current.1
    else if b.height = current.2.height + 1 ∧ current.2.blockHash = b.lastBlockHash then
      next (current.1.handleBlock env pending.type pending.block)
    else (current.1, 0)

def processNewestBlock (s : SyncState S) (address : String) : SyncState S :=
  match s.chains.find? address with
  | none => s
  | some chain =>
    let r := s.processPending env address chain.blocks.entries
    r.1.putChain address { chain with blocks := chain.blocks.drop r.2, checkTime := env.now }

inductive Gap where
  | nothing
  | missing (height : UInt64)
  | lowest (block : XvBlock)

def findGap (startHeight : UInt64) : Option XvBlock → List (UInt64 × PendingBlock S) → Gap
  | none, [] => .nothing
  | some successor, [] => .lowest successor
  | none, (_, pending) :: rest => findGap startHeight (some pending.block.block) rest
  | some successor, (height, pending) :: rest =>
    if successor.height ≤ startHeight then .nothing
    else if height + 1 ≠ successor.height then .missing (successor.height - 1)
    else if successor.lastBlockHash ≠ pending.block.block.blockHash then
      .missing (successor.height - 1)
    else findGap startHeight (some pending.block.block) rest

def syncNewestBlock (s : SyncState S) (address : String) : SyncState S :=
  match s.chains.find? address with
  | none => s
  | some chain =>
    match findGap chain.startHeight none chain.blocks.entries.reverse with
    | .nothing => s
    | .missing height => s.getBlocks env address height .gossip
    | .lowest successor =>
      if queueSize ≤ chain.blocks.entries.length ∨ successor.height ≤ chain.startHeight then s
      else
        let current := s.getCurrentBlock address
        let height := successor.height - 1
        if current.2.height < height ∨
            (height = current.2.height ∧ successor.lastBlockHash ≠ current.2.blockHash) then
          current.1.getBlocks env address height .gossip
        else current.1

def notifyDownloader (s : SyncState S) (address : String) : SyncState S :=
  match s.chains.find? address with
  | none => s
  | some chain =>
    match chain.blocks.values with
    | [] => s
    | root :: _ =>
      let rootHeight := root.block.block.height
      if rootHeight = 1 ∨ rootHeight < chain.startHeight then s
      else s.putChain address { chain with startHeight := rootHeight }

def writeAhead (s : SyncState S) (type : PendingType) (p : BlockPtr S) : SyncState S × BlockPtr S :=
  let parts := env.extractParts p.block.account
  if type ≠ .consensus ∧ parts.1 ∧ parts.2 = shardingTableBlockAddr then
    let r := s.storeBlock p
    (r.1, r.2.1)
  else (s, p)

/-- `insert` of the queue's map never replaces an entry. -/
def enqueue (blocks : SortedMap UInt64 (PendingBlock S)) (pending : PendingBlock S) :
    SortedMap UInt64 (PendingBlock S) :=
  let b := pending.block.block
  match blocks.find? b.height with
  | none => blocks.insert b.height pending
  | some old =>
    if old.block.block.viewid < b.viewid then (blocks.emplace b.height pending).1 else blocks

def handleFetchBlock (s : SyncState S) (type : PendingType) (p : BlockPtr S) : SyncState S :=
  let address := p.block.account
  let r := s.writeAhead env type p
  let chain := (r.1.chains.find? address).getD ⟨.empty, 0, env.now⟩
  if p.block.height < chain.startHeight then r.1.putChain address chain
  else
    let blocks := enqueue chain.blocks ⟨type, r.2⟩
    r.1.putChain address { chain with blocks := blocks.drop (blocks.entries.length - queueSize) }

def onFetchedBlock (s : SyncState S) (type : PendingType) (p : BlockPtr S) : SyncState S :=
  let address := p.block.account
  let s := s.handleFetchBlock env type p
  let s := s.processNewestBlock env address
  let s := s.notifyDownloader address
  s.syncNewestBlock env address

def onBlockInfo (s : SyncState S) (type : PendingType) (address : String)
    (height viewid : UInt64) : SyncState S :=
  match (s.chains.find? address).bind (·.blocks.find? height) with
  | none => s.getBlocks env address height type
  | some cached =>
    if cached.block.block.viewid < viewid then s.getBlocks env address height type
    else if cached.block.block.viewid = viewid then s.notifyDownloader address
    else s

def onBlocksEvent (s : SyncState S) (p : BlockPtr S) : SyncState S :=
  let key := getKey p.block.account p.block.height
  match s.fetchingList.find? key with
  | none => s
  | some ctx =>
    let s := { s with fetchingList := s.fetchingList.erase key }
    if env.isBeaconTable p.block.account then s.onFetchedBlock env ctx.type p
    else
      match s.checkAuth env p with
      | (s, p, true) => s.onFetchedBlock env ctx.type p
      | (s, _, false) => s

def onFetcherTimer (s : SyncState S) : SyncState S :=
  let s := { s with
    fetchingList := s.fetchingList.filter fun e => env.now - e.2.tm ≤ fetcherTimeout }
  let idle := s.chains.entries.filter fun e => chainCheckInterval < env.now - e.2.checkTime
  idle.foldl (fun s e => s.processNewestBlock env e.1) s

def processFetcherEvent (s : SyncState S) : FetcherEvent S → SyncState S
  | .consensus p => s.onFetchedBlock env .consensus p
  | .newblock p => s.onFetchedBlock env .newblock p
  | .info type address height viewid => s.onBlockInfo env type address height viewid
  | .blocks p => s.onBlocksEvent env p
  | .timer => s.onFetcherTimer env
  | .downloaderComplete address =>
    (s.processNewestBlock env address).syncNewestBlock env address

def filterBlock (s : SyncState S) : List (BlockPtr S) → Option (SyncState S)
  | [p] =>
    match s.fetchingList.find? (getKey p.block.account p.block.height) with
    | some _ => some { s with fetcherEvents := s.fetcherEvents ++ [.blocks p] }
    | none => none
  | _ => none

def handleNewblock (s : SyncState S) (p : BlockPtr S) : SyncState S :=
  let push (s : SyncState S) (p : BlockPtr S) : SyncState S :=
    { s with fetcherEvents := s.fetcherEvents ++ [.newblock p] }
  if env.isBeaconTable p.block.account then push s p
  else
    match s.checkAuth env p with
    | (s, p, true) => push s p
    | (s, _, false) => s

def handleNewblockhash (s : SyncState S) (address : String) (height viewid : UInt64) :
    SyncState S :=
  let current := s.getCurrentBlock address
  if height < current.2.height ∨ viewid ≤ current.2.viewid then current.1
  else { current.1 with
    fetcherEvents := current.1.fetcherEvents ++ [.info .newblockhash address height viewid] }

end SyncState
end TopChain.Sync
