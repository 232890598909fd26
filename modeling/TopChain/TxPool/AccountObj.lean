import TopChain.Cert.Receipt
import TopChain.Lib.Bag
import TopChain.Lib.SortedMap
import TopChain.Lib.Run
import Mathlib.Data.String.Basic

/-!
# The transactions of an account in the pool (`xtxpool/src/xaccountobj.cpp`)

`xaccountobj_t` keeps three ordered queues, a map from the digests, and counts in its table.
-/
namespace TopChain.TxPool

open TopChain.Lib TopChain.Cert

structure PoolTx where
  digest : String
  subtype : TxSubtype
  isTransfer : Bool := true
  lastNonce : UInt64
  lastHash : UInt64
  fireTimestamp : UInt64
  expireDuration : UInt16 := 0
  pushPoolTimestamp : UInt64 := 0
deriving DecidableEq

def PoolTx.isSource (tx : PoolTx) : Bool := tx.subtype = .send || tx.subtype = .self

def sendLess (a b : PoolTx) : Bool :=
  if a.lastNonce = b.lastNonce then a.fireTimestamp > b.fireTimestamp
  else a.lastNonce < b.lastNonce

def recvLess (a b : PoolTx) : Bool := a.fireTimestamp < b.fireTimestamp

instance instStrictWeakSendLess : StrictWeak sendLess where
  asymm a b h := by
    simp only [sendLess] at h ⊢
    split_ifs at h ⊢ with h₁ h₂ h₂
    · simp only [decide_eq_true_eq] at h ⊢
      exact h.not_gt
    · exact absurd h₁.symm h₂
    · exact absurd h₂.symm h₁
    · simp only [decide_eq_true_eq] at h ⊢
      exact h.not_gt
  cotrans a b c h := by
    simp only [sendLess] at h ⊢
    by_cases hab : a.lastNonce = b.lastNonce
    · by_cases hbc : b.lastNonce = c.lastNonce
      · rw [if_pos (hab.trans hbc), decide_eq_true_eq] at h
        rw [if_pos hab, if_pos hbc, decide_eq_true_eq, decide_eq_true_eq]
        rcases lt_or_ge b.fireTimestamp a.fireTimestamp with hlt | hge
        · exact .inl hlt
        · exact .inr (h.trans_le hge)
      · rw [if_neg fun he => hbc (hab.symm.trans he), decide_eq_true_eq, hab] at h
        rw [if_neg hbc, decide_eq_true_eq (p := b.lastNonce < c.lastNonce)]
        exact .inr h
    · rw [if_neg hab, decide_eq_true_eq (p := a.lastNonce < b.lastNonce)]
      rcases lt_or_gt_of_ne hab with hlt | hgt
      · exact .inl hlt
      · -- `b` is below `a`, which is not above `c`
        have hac : a.lastNonce ≤ c.lastNonce := by
          split_ifs at h with he
          · exact he.le
          · rw [decide_eq_true_eq] at h
            exact h.le
        have hbc := hgt.trans_le hac
        rw [if_neg hbc.ne, decide_eq_true_eq]
        exact .inr hbc

instance instStrictWeakRecvLess : StrictWeak recvLess :=
  strictWeak_key PoolTx.fireTimestamp decide_eq_true_iff

structure PoolConfig where
  hash64 : String → UInt64
  accountSendQueueTxMaxNum : UInt32
  txSendTimestampTolerance : UInt32
  sendTransferTxBatchNum : Nat
  recvTransferTxBatchNum : Nat
  confirmTxBatchNum : Nat

namespace PoolConfig
variable (G : PoolConfig)

def checkLastTransHash (tx : PoolTx) (hash : String) : Bool := tx.lastHash = G.hash64 hash

def nonceContinous (last : UInt64 × String) (tx : PoolTx) : Option (UInt64 × String) :=
  if last.1 = tx.lastNonce ∧ G.checkLastTransHash tx last.2 then
    some (tx.lastNonce + 1, tx.digest)
  else none

def expired (now : UInt64) (tx : PoolTx) : Bool :=
  tx.fireTimestamp + tx.expireDuration.toUInt64 + G.txSendTimestampTolerance.toUInt64 < now

end PoolConfig

inductive PoolError where
  | txNonceTooOld | txNonceRepeat | txNonceIncontinuity | sendTxQueueOverUpperLimit
  | requestTxRepeat | txLastHashError
deriving DecidableEq, Repr

structure TxCounters where
  send : Int := 0
  recv : Int := 0
  conf : Int := 0
deriving DecidableEq, Repr

structure AccountObj where
  latestSendTransNumber : UInt64
  latestSendTransHash : String
  sendQueue : Bag sendLess
  recvQueue : Bag recvLess
  recvAckQueue : Bag recvLess
  txMap : SortedMap String PoolTx
  table : TxCounters

namespace AccountObj
variable (G : PoolConfig) (a : AccountObj)

def new (accountTxNonce : UInt64) (accountTxHash : String) (table : TxCounters) : AccountObj :=
  ⟨accountTxNonce, accountTxHash, .empty, .empty, .empty, .empty, table⟩

def countOut (tx : PoolTx) : AccountObj :=
  match tx.subtype with
  | .recv => { a with table := { a.table with recv := a.table.recv - 1 } }
  | .confirm => { a with table := { a.table with conf := a.table.conf - 1 } }
  | _ => { a with table := { a.table with send := a.table.send - 1 } }

def popTxEvent (tx : PoolTx) : AccountObj :=
  if (a.txMap.find? tx.digest).isNone then a
  else { a with txMap := a.txMap.erase tx.digest }.countOut tx

def popTxEvents (txs : List PoolTx) : AccountObj := txs.foldl (fun a tx => a.popTxEvent tx) a

def clearSendQueueByIter (i : Nat) : AccountObj :=
  { a.popTxEvents (a.sendQueue.entries.drop i) with sendQueue := a.sendQueue.take i }

def clearExpireTxs (now : UInt64) : AccountObj :=
  a.clearSendQueueByIter (a.sendQueue.entries.findIdx (G.expired now))

def checkAndEraseOldNonceDuplicateTx (tx : PoolTx) : AccountObj × Option PoolError :=
  let i := a.sendQueue.entries.findIdx (tx.lastNonce = ·.lastNonce)
  match a.sendQueue.entries[i]? with
  | some old =>
    if tx.fireTimestamp < old.fireTimestamp then (a, some .txNonceRepeat)
    else (a.clearSendQueueByIter i, none)
  | none => (a, none)

def popTx : AccountObj × Option PoolTx :=
  match a.recvQueue.entries with
  | tx :: _ => ({ a with recvQueue := a.recvQueue.drop 1 }, some tx)
  | [] =>
    match a.sendQueue.entries with
    | tx :: _ => ({ a with sendQueue := a.sendQueue.drop 1 }, some tx)
    | [] => (a, none)

def popFromQueue (tx : PoolTx) : AccountObj :=
  match tx.subtype with
  | .send | .self =>
    match (a.sendQueue.equal tx).findIdx? (·.digest = tx.digest) with
    | none => a
    | some i =>
      -- the followers go with the transaction
      { (a.countOut tx).popTxEvents (a.sendQueue.above tx) with
        sendQueue := a.sendQueue.truncateEqual tx i }
  | .recv =>
    match (a.recvQueue.equal tx).findIdx? (·.digest = tx.digest) with
    | none => a
    | some i => { a.countOut tx with recvQueue := a.recvQueue.eraseEqual tx i }
  | .confirm =>
    match (a.recvAckQueue.equal tx).findIdx? (·.digest = tx.digest) with
    | none => a
    | some i => { a.countOut tx with recvAckQueue := a.recvAckQueue.eraseEqual tx i }

def popTxByHash (hash : String) (subtype : TxSubtype) : AccountObj × Option PoolTx :=
  match a.txMap.find? hash with
  | none => (a, none)
  | some tx =>
    if tx.subtype ≠ subtype then (a, none)
    else ({ a with txMap := a.txMap.erase hash }.popFromQueue tx, some tx)

def dropOldNonces (accountTxNonce : UInt64) : AccountObj :=
  { a.popTxEvents (a.sendQueue.entries.takeWhile (·.lastNonce < accountTxNonce)) with
    sendQueue := a.sendQueue.dropWhile (·.lastNonce < accountTxNonce) }

def updateLatestSendTransNumberHash (accountTxNonce : UInt64) (accountTxHash : String) :
    AccountObj × Bool :=
  if accountTxNonce < a.latestSendTransNumber then (a, false)
  else if accountTxNonce = a.latestSendTransNumber then (a, true)
  else
    let a := { a with
      latestSendTransNumber := accountTxNonce
      latestSendTransHash := accountTxHash }.dropOldNonces accountTxNonce
    match a.sendQueue.entries.head? with
    | some tx =>
      if G.checkLastTransHash tx accountTxHash then (a, true)
      else (a.clearSendQueueByIter 0, true)
    | none => (a, true)

def enqueueSend (tx : PoolTx) : AccountObj :=
  { a with
    txMap := a.txMap.insert tx.digest tx
    sendQueue := a.sendQueue.insert tx
    table := { a.table with send := a.table.send + 1 } }

def enqueueIfRoom (tx : PoolTx) : AccountObj × Option PoolError :=
  if G.accountSendQueueTxMaxNum.toNat ≤ a.sendQueue.entries.length then
    (a, some .sendTxQueueOverUpperLimit)
  else (a.enqueueSend tx, none)

def pushChained (tx : PoolTx) : AccountObj × Option PoolError :=
  match a.sendQueue.entries.getLast? with
  | none =>
    if tx.lastNonce ≠ a.latestSendTransNumber then (a, some .txNonceIncontinuity)
    else if !G.checkLastTransHash tx a.latestSendTransHash then (a, some .txLastHashError)
    else (a.enqueueSend tx, none)
  | some last =>
    if tx.lastNonce = last.lastNonce + 1 then
      if !G.checkLastTransHash tx last.digest then (a, some .txLastHashError)
      else a.enqueueIfRoom G tx
    else if tx.lastNonce > last.lastNonce + 1 then (a, some .txNonceIncontinuity)
    else
      -- a replacement is not compared with the hash of the transaction before it
      match a.checkAndEraseOldNonceDuplicateTx tx with
      | (a, some e) => (a, some e)
      | (a, none) => a.enqueueIfRoom G tx

def pushSendTx (tx : PoolTx) : AccountObj × Option PoolError :=
  if tx.lastNonce < a.latestSendTransNumber then (a, some .txNonceTooOld)
  else
    let a := a.clearExpireTxs G tx.pushPoolTimestamp
    if (a.txMap.find? tx.digest).isSome then (a, some .requestTxRepeat)
    else a.pushChained G tx

def pushRecvTx (tx : PoolTx) : AccountObj × Option PoolError :=
  if (a.txMap.find? tx.digest).isSome then (a, some .requestTxRepeat)
  else
    ({ a with
      txMap := a.txMap.insert tx.digest tx
      recvQueue := a.recvQueue.insert tx
      table := { a.table with recv := a.table.recv + 1 } }, none)

def pushRecvAckTx (tx : PoolTx) : AccountObj × Option PoolError :=
  if (a.txMap.find? tx.digest).isSome then (a, some .requestTxRepeat)
  else
    ({ a with
      txMap := a.txMap.insert tx.digest tx
      recvAckQueue := a.recvAckQueue.insert tx
      table := { a.table with conf := a.table.conf + 1 } }, none)

def push (tx : PoolTx) : AccountObj × Option PoolError :=
  match tx.subtype with
  | .send | .self => a.pushSendTx G tx
  | .recv => a.pushRecvTx tx
  | .confirm => a.pushRecvAckTx tx

structure CommittedTx where
  digest : String
  subtype : TxSubtype
  lastNonce : UInt64
deriving DecidableEq

def sendTransInfo (txs : List CommittedTx) : UInt64 × String :=
  txs.foldl (fun latest tx =>
    if (tx.subtype = .self ∨ tx.subtype = .send) ∧ tx.lastNonce + 1 > latest.1 then
      (tx.lastNonce + 1, tx.digest)
    else latest) (0, "")

def onUnitToDb (txs : Option (List CommittedTx)) (accountTxNonce : UInt64)
    (accountTxHash : String) :
    AccountObj :=
  match txs with
  | none => (a.updateLatestSendTransNumberHash G accountTxNonce accountTxHash).1
  | some txs =>
    let a := txs.foldl (fun a tx => (a.popTxByHash tx.digest tx.subtype).1) a
    let info := sendTransInfo txs
    let latest := if info.1 ≠ 0 ∧ info.1 > accountTxNonce then info
      else (accountTxNonce, accountTxHash)
    (a.updateLatestSendTransNumberHash G latest.1 latest.2).1

/-- The loops of `get_send_txs` and `get_recv_txs`: a batch of transfers, or one of another type. -/
def selectBatch (batchNum : Nat) : Nat → List PoolTx → List PoolTx
  | _, [] => []
  | count, tx :: rest =>
    if !tx.isTransfer && count ≠ 0 then []
    else if !tx.isTransfer || batchNum ≤ count + 1 then [tx]
    else tx :: selectBatch batchNum (count + 1) rest

def getSendTxs (accountTxNonce : UInt64) (accountTxHash : String) : AccountObj × List PoolTx :=
  match a.updateLatestSendTransNumberHash G accountTxNonce accountTxHash with
  | (a, false) => (a, [])
  | (a, true) => (a, selectBatch G.sendTransferTxBatchNum 0 a.sendQueue.entries)

def getRecvAckTxs : List PoolTx := a.recvAckQueue.entries.take (max 1 G.confirmTxBatchNum)

def getRecvTxs : List PoolTx := selectBatch G.recvTransferTxBatchNum 0 a.recvQueue.entries

def getConsTxs (accountTxNonce : UInt64) (accountTxHash : String) : AccountObj × List PoolTx :=
  if a.getRecvAckTxs G ≠ [] then (a, a.getRecvAckTxs G)
  else if a.getRecvTxs G ≠ [] then (a, a.getRecvTxs G)
  else a.getSendTxs G accountTxNonce accountTxHash

/-- The calls of an account's pool. -/
inductive PoolCall where
  | push (tx : PoolTx)
  | popTx
  | popTxByHash (hash : String) (subtype : TxSubtype)
  | clearInvalidSendTx (now : UInt64)
  | updateLatest (accountTxNonce : UInt64) (accountTxHash : String)
  | onUnitToDb (txs : Option (List CommittedTx)) (accountTxNonce : UInt64) (accountTxHash : String)
  | getConsTxs (accountTxNonce : UInt64) (accountTxHash : String)

structure Selected where
  accountTxNonce : UInt64
  accountTxHash : String
  txs : List PoolTx

def step (a : AccountObj) : PoolCall → AccountObj × List Selected
  | .push tx => ((a.push G tx).1, [])
  | .popTx => (a.popTx.1, [])
  | .popTxByHash hash subtype => ((a.popTxByHash hash subtype).1, [])
  | .clearInvalidSendTx now => (a.clearExpireTxs G now, [])
  | .updateLatest nonce hash => ((a.updateLatestSendTransNumberHash G nonce hash).1, [])
  | .onUnitToDb txs nonce hash => (a.onUnitToDb G txs nonce hash, [])
  | .getConsTxs nonce hash =>
    let out := a.getConsTxs G nonce hash
    (out.1, [⟨nonce, hash, out.2⟩])

end AccountObj
end TopChain.TxPool
