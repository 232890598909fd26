import TopChain.TxExecutor.TransactionContext

/-!
# Batches of transactions and the light unit

`xtransaction_executor` and `xunit_blockmaker_t::create_lightunit`.
-/
namespace TopChain.TxExecutor

open TopChain.Lib TopChain.Data TopChain.Store TopChain.Cert

structure TransactionResult where
  balanceChange : Int := 0
  pledgeTgasChange : Int := 0
  pledgeDiskChange : Int := 0
  pledgeVoteChange : Int := 0
  lockBalanceChange : Int := 0
  lockTgasChange : Int := 0
  unvoteNumChange : Int := 0
  props : SortedMap String String := .empty
  contractTxs : Nat := 0
  modifyObjs : List String := []
  hasPropLog : Bool := false
deriving DecidableEq

structure BatchResult where
  succTxsResult : TransactionResult := {}
  execSuccTxs : List ConsTx := []
  execFailTx : Option (ConsTx × TxError) := none

structure InputEntity where
  subtype : TxSubtype
  tx : Transaction
  contractCreate : Bool
  lastActionStatus : ExecStatus
deriving DecidableEq

structure OutputEntity where
  subtype : TxSubtype
  tx : Transaction
  state : ExecState
deriving DecidableEq

structure OutputResource where
  balanceChange : Int
  pledgeTgasChange : Int
  pledgeDiskChange : Int
  pledgeVoteChange : Int
  lockBalanceChange : Int
  lockTgasChange : Int
  unvoteNumChange : Int
  nativeProperty : List (String × NativeObj)
  propertyHash : SortedMap String String
  unconfirmSendtxNum : Nat
  prevSendtxConfirmedFlag : Bool
  binlog : Option AccountBinlog

structure Lightunit where
  inputs : List InputEntity
  outputs : List OutputEntity
  resource : OutputResource

namespace ExecEnv
variable (X : ExecEnv)

def getTransactionResult (c : Context) : TransactionResult where
  balanceChange := c.balanceChange
  pledgeTgasChange := c.pledgeTgasChange
  pledgeDiskChange := c.pledgeDiskChange
  pledgeVoteChange := c.pledgeVoteChange
  lockBalanceChange := c.lockBalanceChange
  lockTgasChange := c.lockTgasChange
  unvoteNumChange := c.unvoteNumChange
  props := c.cmd.getPropertyHash X.propertyHash
  contractTxs := c.contractTxs.length
  modifyObjs := c.native.modifyObjs
  hasPropLog := c.cmd.getPropertyLog.isSome

def execOneTx (c : Context) (t : ConsTx) : Context × ConsTx × Except TxError TransactionResult :=
  match X.exec t { ctx := c, tx := t } with
  | .error e s => (s.ctx, s.tx, .error e)
  | .ok _ s =>
    let result := X.getTransactionResult s.ctx
    if t.subtype X.config = .self ∧ X.config.isSysContractAddress t.tx.sourceAddr ∧
        result.modifyObjs = [] ∧ ¬ result.hasPropLog then
      (s.ctx, s.tx, .error .contractExecNoPropertyChange)
    else (s.ctx, s.tx, .ok result)

/-- The loop of `exec_tx` over the transactions that contracts have created. -/
def execContractTxs : Nat → List ConsTx → Context → TransactionResult →
    Context × Except TxError TransactionResult
  | _, [], c, result => (c, .ok result)
  | i, t :: rest, c, _ =>
    match X.execOneTx c t with
    | (c, t, .error e) => ({ c with contractTxs := c.contractTxs.set i t }, .error e)
    | (c, t, .ok result) =>
      execContractTxs (i + 1) rest { c with contractTxs := c.contractTxs.set i t } result

def execWithCreated (c : Context) (t : ConsTx) :
    Context × ConsTx × Except TxError TransactionResult :=
  match X.execOneTx c t with
  | (c, t, .error e) => (c, t, .error e)
  | (c, t, .ok result) =>
    let (c, result) := X.execContractTxs 0 c.contractTxs c result
    (c, t, result)

def isSource (t : ConsTx) : Bool :=
  t.subtype X.config = .self || t.subtype X.config = .send

def takeNonce (tx : Transaction) (c : Context) : Context :=
  { c with account := { c.account with
      sendTransHash := tx.digest
      sendTransNumber := tx.txNonce } }

def execTx (c : Context) (t : ConsTx) : Context × ConsTx × Except TxError TransactionResult :=
  if X.isSource t then
    if c.account.sendTransNumber ≠ t.tx.lastNonce ∨
        X.hash64 c.account.sendTransHash ≠ t.tx.lastHash then
      (c, t, .error .txNonceNotMatch)
    else X.execWithCreated (takeNonce t.tx c) t
  else X.execWithCreated c t

def setStatus (status : ExecStatus) (t : ConsTx) : ConsTx :=
  { t with execState := { t.execState with execStatus := status } }

/-- `exec_batch_txs`. A recv or confirm that fails does not give the batch its result. -/
def execBatchTxs : Context → List ConsTx → BatchResult →
    Context × List ConsTx × BatchResult × Option TxError
  | c, [], r => (c, [], r, none)
  | c, t :: rest, r =>
    match X.execTx c t with
    | (c, t', .ok result) =>
      let t' := setStatus .success t'
      let out := execBatchTxs c rest
        { r with succTxsResult := result, execSuccTxs := r.execSuccTxs ++ [t'] }
      (out.1, t' :: out.2.1, out.2.2)
    | (c, t', .error e) =>
      let t' := setStatus .fail t'
      if X.isSource t then
        (c, t' :: rest, { r with execFailTx := some (t', e) },
          if r.execSuccTxs.isEmpty then some e else none)
      else
        let out := execBatchTxs c rest { r with execSuccTxs := r.execSuccTxs ++ [t'] }
        (out.1, t' :: out.2.1, out.2.2)

section
variable {X} {c c' : Context} {t t' : ConsTx} {rest : List ConsTx} {r : BatchResult}

theorem execTx_send_cases {ret : Except TxError TransactionResult}
    (hsend : t.subtype X.config = .send) (h : X.execTx c t = (c', t', ret)) :
    (c' = c ∧ t' = t ∧ ret = .error .txNonceNotMatch) ∨
    (∃ e s, X.exec t { ctx := takeNonce t.tx c, tx := t } = .error e s ∧
      c' = s.ctx ∧ t' = s.tx ∧ ret = .error e) ∨
    ∃ s, X.exec t { ctx := takeNonce t.tx c, tx := t } = .ok () s ∧ t' = s.tx ∧
      (c', ret) = X.execContractTxs 0 s.ctx.contractTxs s.ctx (X.getTransactionResult s.ctx) := by
  have hsource : X.isSource t := by simp [isSource, hsend]
  have hself : ¬ (t.subtype X.config = .self) := by
    rw [hsend]
    decide
  unfold execTx at h
  split_ifs at h
  · cases h
    exact .inl ⟨rfl, rfl, rfl⟩
  unfold execWithCreated execOneTx at h
  cases hexec : X.exec t { ctx := takeNonce t.tx c, tx := t } with
  | error e s =>
    rw [hexec] at h
    cases h
    exact .inr (.inl ⟨e, s, rfl, rfl, rfl, rfl⟩)
  | ok a s =>
    rw [hexec] at h
    dsimp only at h
    rw [if_neg fun hno => hself hno.1] at h
    cases h
    exact .inr (.inr ⟨s, rfl, rfl, rfl⟩)

theorem execBatchTxs_of_ok {result : TransactionResult} (h : X.execTx c t = (c', t', .ok result)) :
    X.execBatchTxs c (t :: rest) r =
      ((X.execBatchTxs c' rest { r with
          succTxsResult := result
          execSuccTxs := r.execSuccTxs ++ [setStatus .success t'] }).1,
        setStatus .success t' :: (X.execBatchTxs c' rest { r with
          succTxsResult := result
          execSuccTxs := r.execSuccTxs ++ [setStatus .success t'] }).2.1,
        (X.execBatchTxs c' rest { r with
          succTxsResult := result
          execSuccTxs := r.execSuccTxs ++ [setStatus .success t'] }).2.2) := by
  rw [execBatchTxs, h]

section
variable {e : TxError} (h : X.execTx c t = (c', t', .error e))
include h

theorem execBatchTxs_of_fail (ht : X.isSource t) : X.execBatchTxs c (t :: rest) r =
      (c', setStatus .fail t' :: rest, { r with execFailTx := some (setStatus .fail t', e) },
        if r.execSuccTxs.isEmpty then some e else none) := by
  rw [execBatchTxs, h]
  exact if_pos ht

theorem execBatchTxs_of_pass (ht : ¬ X.isSource t) : X.execBatchTxs c (t :: rest) r =
      ((X.execBatchTxs c' rest { r with
          execSuccTxs := r.execSuccTxs ++ [setStatus .fail t'] }).1,
        setStatus .fail t' :: (X.execBatchTxs c' rest { r with
          execSuccTxs := r.execSuccTxs ++ [setStatus .fail t'] }).2.1,
        (X.execBatchTxs c' rest { r with
          execSuccTxs := r.execSuccTxs ++ [setStatus .fail t'] }).2.2) := by
  rw [execBatchTxs, h]
  exact if_neg ht

end
end

def sharedProperty (c : Context) (result : TransactionResult) : List (String × NativeObj) :=
  c.native.objs.entries.filter (·.1 ∈ result.modifyObjs)

def sharedLog (c : Context) (result : TransactionResult) : Option AccountBinlog :=
  if result.hasPropLog then some c.cmd.proplogs else none

def sharedTxs (c : Context) (result : TransactionResult) : List ConsTx :=
  c.contractTxs.take result.contractTxs

/-- The constructor of `xlightunit_output_resource_t`; the number of unconfirmed transactions
is 32-bit. -/
def outputResource (c : Context) (txs : List ConsTx) (result : TransactionResult) :
    OutputResource :=
  let sendTxNum := txs.countP (·.subtype X.config = .send) + (sharedTxs c result).length
  let confirmTxNum := txs.countP (·.subtype X.config = .confirm)
  let unconfirm := Word.wsub 32 c.account.unconfirmSendtxNum confirmTxNum
  { balanceChange := result.balanceChange
    pledgeTgasChange := result.pledgeTgasChange
    pledgeDiskChange := result.pledgeDiskChange
    pledgeVoteChange := result.pledgeVoteChange
    lockBalanceChange := result.lockBalanceChange
    lockTgasChange := result.lockTgasChange
    unvoteNumChange := result.unvoteNumChange
    nativeProperty := sharedProperty c result
    propertyHash := result.props
    unconfirmSendtxNum := (unconfirm + sendTxNum) % 2 ^ 32
    prevSendtxConfirmedFlag := unconfirm = 0
    binlog := sharedLog c result }

def inputEntity (contractCreate : Bool) (t : ConsTx) : InputEntity :=
  ⟨t.subtype X.config, t.tx, contractCreate, t.lastAction.execStatus⟩

def outputEntity (t : ConsTx) : OutputEntity := ⟨t.subtype X.config, t.tx, t.execState⟩

def blockbody (c : Context) (txs : List ConsTx) (result : TransactionResult) : Lightunit where
  inputs := txs.map (X.inputEntity false) ++ (sharedTxs c result).map (X.inputEntity true)
  outputs := (txs ++ sharedTxs c result).map X.outputEntity
  resource := X.outputResource c txs result

def makeLightunitOutput (c : Context) (txs : List ConsTx) : Except TxError Lightunit :=
  match X.execBatchTxs c txs {} with
  | (_, _, _, some e) => .error e
  | (c, txs, r, none) => .ok (X.blockbody c txs r.succTxsResult)

def plain : ExecEnv where
  config :=
    { voteToken := fun _ _ => 0
      addrType := fun _ => .userAccount
      isBeaconZone := fun _ => false }
  vm _ c := (c, {})
  newContext address := .new address {} .empty 0 0
  hash64 := String.length
  propertyHash _ := ""

def richAccount : Context := .new "A" { balance := 1000000000 } .empty 0 0

def bigTransfer (lastNonce lastHash : Nat) : ConsTx where
  tx := ⟨.transfer ⟨"TOP", 600000000⟩ ⟨"TOP", 600000000⟩, "A", "B", 100000, 100, lastNonce,
    lastHash, "h"⟩

end ExecEnv
end TopChain.TxExecutor
