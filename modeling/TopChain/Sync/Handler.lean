import TopChain.Sync.BlockFetcher
import TopChain.Sync.Downloader

/-!
# Sync as a whole (`xsync/src/xsync_handler.cpp`, `xsync_latest.cpp`, `xdownloader.cpp`)

Messages wait in the queues of the fetcher and the downloader, which take turns in any order.
-/
namespace TopChain.Sync

open TopChain.Base

inductive Message where
  | blocks (blocks : List XvBlock)
  | newblock (block : XvBlock)
  | latestBlocks (blocks : List XvBlock)
  | newblockhash (address : String) (height viewid : UInt64)
  | gossip (behind : List (String × UInt64 × UInt64))

def Message.wireBlocks : Message → List XvBlock
  | .blocks bs => bs
  | .newblock b => [b]
  | .latestBlocks bs => bs
  | .newblockhash .. => []
  | .gossip _ => []

def Message.withoutFlags : Message → Message
  | .blocks bs => .blocks (bs.map (·.resetBlockFlags))
  | .newblock b => .newblock b.resetBlockFlags
  | .latestBlocks bs => .latestBlocks (bs.map (·.resetBlockFlags))
  | .newblockhash address height viewid => .newblockhash address height viewid
  | .gossip behind => .gossip behind

def LinksTo (block successor : XvBlock) : Prop :=
  block.account = successor.account ∧ block.blockHash = successor.lastBlockHash

instance (b s : XvBlock) : Decidable (LinksTo b s) := inferInstanceAs (Decidable (_ ∧ _))

/-- What can reach the node; `storeChanges` is any change of the store from outside. -/
inductive SyncEvent (S : SyncStore) where
  | receive (message : Message)
  | consensusResult (block : BlockPtr S)
  | timer
  | downloaderComplete (address : String)
  | fetcherTurn
  | downloaderTurn (position : Nat)
  | storeChanges (change : S.State → S.State)

structure SyncInput (S : SyncStore) where
  env : SyncEnv
  event : SyncEvent S

namespace SyncState
variable {S : SyncStore} (env : SyncEnv)

def handleLatestBlocks (s : SyncState S) : List (BlockPtr S) → SyncState S
  | [] => s
  | p :: _ =>
    if !env.chainExists p.block.account then s
    else
      let latest := s.getLatestCertBlock p.block.account
      if latest.2.height < p.block.height ∨ latest.2.viewid < p.block.viewid then
        match latest.1.checkAuth env p with
        | (s, p, true) => (s.storeBlock p).1
        | (s, _, false) => s
      else latest.1

/-- `xsync_handler_t::blocks`. The source walks from the last block to the first; any
broken link drops the message. -/
def handleBlocks (s : SyncState S) (blocks : List (BlockPtr S)) : SyncState S :=
  if blocks.isEmpty ∨ ¬ (blocks.map (·.block)).IsChain LinksTo then s
  else
    match s.filterBlock blocks with
    | some s => s
    | none => { s with responses := s.responses ++ [blocks] }

def receive (s : SyncState S) (message : Message) : SyncState S :=
  let s := { s with
    log := .received (message.wireBlocks.map (·.resetBlockFlags)) :: s.log }
  match message with
  | .blocks bs => s.handleBlocks (bs.map readBlock)
  | .newblock b =>
    if env.chainExists b.account then s.handleNewblock env (readBlock b) else s
  | .latestBlocks bs => s.handleLatestBlocks env (bs.map readBlock)
  | .newblockhash address height viewid =>
    if address = "" ∨ height = 0 ∨ viewid = 0 then s
    else s.handleNewblockhash address height viewid
  | .gossip behind =>
    let events := behind.map fun e => FetcherEvent.info .gossip e.1 e.2.1 e.2.2
    { s with fetcherEvents := s.fetcherEvents ++ events }

def onEvent (s : SyncState S) : SyncEvent S → SyncState S
  | .receive message => s.receive env message
  | .consensusResult p =>
    if env.chainExists p.block.account ∧ env.isTableAddress p.block.account then
      { s with fetcherEvents := s.fetcherEvents ++ [.consensus p] }
    else s
  | .timer => { s with fetcherEvents := s.fetcherEvents ++ [.timer] }
  | .downloaderComplete address =>
    { s with fetcherEvents := s.fetcherEvents ++ [.downloaderComplete address] }
  | .fetcherTurn =>
    match s.fetcherEvents with
    | [] => s
    | e :: rest => { s with fetcherEvents := rest }.processFetcherEvent env e
  | .downloaderTurn position =>
    match s.responses[position]? with
    | some (p :: blocks) =>
      { s with responses := s.responses.eraseIdx position }.onResponseEvent env
        p.block.account (p :: blocks)
    | _ => s
  | .storeChanges change => { s with store := change s.store }

def init (store : S.State) : SyncState S := ⟨store, .empty, .empty, [], [], []⟩

def runFrom (s : SyncState S) (inputs : List (SyncInput S)) : SyncState S :=
  inputs.foldl (fun s i => s.onEvent i.env i.event) s

end SyncState
end TopChain.Sync
