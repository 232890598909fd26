import TopChain.Cert.Receipt
import TopChain.Lib.SortedMap

/-!
# The cache of received transactions

`xtransaction_recv_cache_t` of a table.
-/
namespace TopChain.TxPool

open TopChain.Lib TopChain.Cert

def maxHeight : Nat := 18446744073709551615

def moreBlockHeight : Nat := 20

structure TxInfo where
  subtype : TxSubtype
  clock : Nat
  targetAddr : String
  digest : String
deriving DecidableEq

structure TableUnit where
  light : Bool
  txs : List TxInfo
deriving DecidableEq

structure TableBlock where
  height : Nat
  height_le : height ≤ maxHeight
  committed : Bool
  units : List TableUnit
deriving DecidableEq

def recvTxs (units : List TableUnit) : List TxInfo :=
  ((units.filter (·.light)).flatMap (·.txs)).filter (·.subtype = .recv)

structure RecvCache where
  recvCache : SortedMap Nat (List String)
  minCacheBlockHeight : Nat
  maxCacheBlockHeight : Nat
  latestBlockHeight : Nat
  oldCacheFull : Bool

def RecvCache.clear : RecvCache := ⟨.empty, maxHeight, 0, 0, false⟩

structure Fill where
  cache : RecvCache
  committedRecvTxs : List (String × String)

structure BlockStore where
  loadBlockObject : Nat → Option TableBlock
  latestCommittedBlock : Option TableBlock

inductive RecvResult where
  | success | receiptExpired | receiptDataNotSynced | receiptDuplicate
deriving DecidableEq, Repr

namespace RecvCache

def digests (c : RecvCache) (clock : Nat) : List String := (c.recvCache.find? clock).getD []

def checkTrustedSection (c : RecvCache) (commitHeight : Nat) : Bool :=
  c.maxCacheBlockHeight = c.latestBlockHeight
    && (commitHeight = maxHeight || commitHeight = c.latestBlockHeight)

def checkDuplicateInCache (c : RecvCache) (clock : Nat) (digest : String) : RecvResult :=
  if digest ∈ c.digests clock then .receiptDuplicate else .success

def deleteExpiredCache (window now : Nat) (c : RecvCache) : RecvCache :=
  if !c.oldCacheFull || now < window then c
  else { c with recvCache := c.recvCache.dropWhile (fun e => e.1 + window < now) }

end RecvCache

namespace Fill

def insertTx (f : Fill) (tx : TxInfo) : Fill where
  cache := { f.cache with
    recvCache := f.cache.recvCache.insert tx.clock ((f.cache.digests tx.clock).insert tx.digest) }
  committedRecvTxs := f.committedRecvTxs ++ [(tx.targetAddr, tx.digest)]

def extend (f : Fill) (height : Nat) : Fill :=
  { f with cache := { f.cache with
      minCacheBlockHeight := min f.cache.minCacheBlockHeight height
      maxCacheBlockHeight := max f.cache.maxCacheBlockHeight height } }

def insertBlockTxToCache (f : Fill) (b : TableBlock) : Fill × Nat :=
  ((recvTxs b.units).foldl insertTx (f.extend b.height),
    (recvTxs b.units).foldl (fun m tx => if tx.clock < m then tx.clock else m) maxHeight)

def setLatest (f : Fill) (height : Nat) : Fill :=
  { f with cache := { f.cache with latestBlockHeight := height } }

end Fill

namespace BlockStore
variable (B : BlockStore)

def cacheFromDb (f : Fill) (height : Nat) : Option (Fill × Nat) :=
  match B.loadBlockObject height with
  | none => none
  | some b => if b.committed then some (f.insertBlockTxToCache b) else none

def cacheUpTo : Nat → Nat → Fill → Fill × Bool
  | 0, _, f => (f, true)
  | n + 1, h, f =>
    match B.cacheFromDb f h with
    | none => (f, false)
    | some (f, _) => cacheUpTo n (h + 1) f

def cacheCommitted : Nat → Nat → Fill → Fill × Bool
  | 0, _, f => (f, true)
  | n + 1, h, f =>
    match B.cacheFromDb f h with
    | none => (f, false)
    | some (f, _) => cacheCommitted n (h + 1) (f.setLatest (f.cache.latestBlockHeight + 1))

/-- The start of `cache_latest_blocks`; `none` when there is no committed block. -/
def startLatest (f : Fill) : Option Fill :=
  if f.cache.latestBlockHeight = 0 then
    match B.latestCommittedBlock with
    | some b => some ((f.setLatest b.height).insertBlockTxToCache b).1
    | none => none
  else some f

def cacheLatestBlocks (f : Fill) (commitHeight : Nat) : Fill × Bool :=
  if commitHeight = 0 then (f, true)
  else
    match B.startLatest f with
    | none => (f, true)
    | some f =>
      match B.cacheUpTo (f.cache.latestBlockHeight - f.cache.maxCacheBlockHeight)
          (f.cache.maxCacheBlockHeight + 1) f with
      | (f, false) => (f, false)
      | (f, true) =>
        if commitHeight ≠ maxHeight then
          B.cacheCommitted (commitHeight - f.cache.latestBlockHeight)
            (f.cache.latestBlockHeight + 1) f
        else (f, true)

def cacheUntilFound : Nat → Fill → Fill × Nat × Bool
  | 0, f => (f, 0, true)
  | 1, f => (f, 1, true)
  | h + 2, f =>
    if f.cache.recvCache.entries.isEmpty then
      match B.cacheFromDb f (h + 1) with
      | none => (f, h + 2, false)
      | some (f, _) => cacheUntilFound (h + 1) f
    else (f, h + 2, true)

/-- The second loop of `cache_old_blocks`, whose condition is that of the early return. -/
def cacheUntilTrusted (oldTimerHeight : Nat) : Nat → Nat → Fill → Fill × Nat × Bool
  | 0, trusted, f => (f, trusted, true)
  | 1, trusted, f => (f, trusted, true)
  | h + 2, trusted, f =>
    if trusted ≤ oldTimerHeight then
      match B.cacheFromDb f (h + 1) with
      | none => (f, trusted, false)
      | some (f, minTimer) =>
        cacheUntilTrusted oldTimerHeight (h + 1)
          (if minTimer ≠ maxHeight then minTimer + moreBlockHeight else trusted) f
    else (f, trusted, true)

def startOld (f : Fill) : Fill × Nat × Bool :=
  if f.cache.minCacheBlockHeight ≠ maxHeight && f.cache.recvCache.entries.isEmpty then
    B.cacheUntilFound f.cache.minCacheBlockHeight f
  else (f, f.cache.minCacheBlockHeight, true)

def cacheOldBlocks (window now : Nat) (f : Fill) (oldTimerHeight : Nat) : Fill × Bool :=
  if f.cache.oldCacheFull then (f, true)
  else
    match B.startOld f with
    | (f, _, false) => (f, false)
    | (f, h, true) =>
      match f.cache.recvCache.entries with
      | [] => (f, true)
      | (clock, _) :: _ =>
        if clock + moreBlockHeight ≤ oldTimerHeight then (f, true)
        else
          match B.cacheUntilTrusted oldTimerHeight h (clock + moreBlockHeight) f with
          | (f, _, false) => (f, false)
          | (f, trusted, true) =>
            if trusted + window ≤ now then
              ({ f with cache := { f.cache with oldCacheFull := true } }, true)
            else (f, true)

def updateTxCache (window now : Nat) (c : RecvCache) (b : TableBlock) : Fill :=
  let f := Fill.setLatest ⟨c, []⟩ (max c.latestBlockHeight b.height)
  let f :=
    if b.height = c.maxCacheBlockHeight + 1 || c.maxCacheBlockHeight = 0 then
      (f.insertBlockTxToCache b).1
    else f
  let f := (B.cacheLatestBlocks f maxHeight).1
  { f with cache := f.cache.deleteExpiredCache window now }

/-- The `do`-block of `is_receipt_duplicated`, which brings both sides of the section up to date. -/
def updateSection (window now : Nat) (c : RecvCache) (clock commitHeight : Nat) :
    Fill × RecvResult :=
  match B.cacheLatestBlocks ⟨c, []⟩ commitHeight with
  | (f, false) => (f, .receiptDataNotSynced)
  | (f, true) =>
    match B.cacheOldBlocks window now f clock with
    | (f, false) => (f, .receiptDataNotSynced)
    | (f, true) =>
      (f, if f.cache.checkTrustedSection commitHeight then .success else .receiptDataNotSynced)

def isReceiptDuplicated (window now : Nat) (c : RecvCache) (clock : Nat) (digest : String)
    (commitHeight : Nat) : Fill × RecvResult :=
  if clock + window < now then (⟨c, []⟩, .receiptExpired)
  else
    let r := B.updateSection window now c clock commitHeight
    match r.1.cache.checkDuplicateInCache clock digest with
    | .success => r
    | duplicate => (r.1, duplicate)

end BlockStore
end TopChain.TxPool
